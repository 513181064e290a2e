import Mathlib.Data.List.Forall2
import SheetFormula.Proofs.Reduction.Height
import SheetFormula.Proofs.Reduction.Replay

/-! Branches of a `switch` and the same branches by themselves. A branch takes one level of nesting in
both places, and what is reported differs by one event: by itself it is an expression, and its visit is
reported before its parts are. So a `switch` whose branches are reduced by themselves has the result of
the `switch`, and one more event for each branch that is reached. -/

namespace SheetFormula

open Traced

/-- The fragment of a branch of a `switch` that stands `level` levels deep. -/
def Branch.reduceBelow (limit level : Nat) (b : Branch) : Traced String :=
  nested limit level fun level => b.reduce limit level

/-- What a branch by itself reports first: its visit, if the limit admits it. -/
def Branch.visit (limit level : Nat) : List Event :=
  if limit ≤ level then [] else [.visited .branch (level + 1)]

/-- The fragment of a `switch`, with its branches reduced as expressions by themselves. -/
def Expr.reduceApart (limit level : Nat) (pattern : Expr) (branches : List Branch) : Traced String :=
  nested limit level fun level => do
    emit (.visited .switch level)
    let pattern ← pattern.reduce limit level
    let branches ← Expr.reduceAll limit level (branches.map Expr.branch)
    ok (Fragment.call "SWITCH" (pattern :: branches))

section Apart

variable {α β : Type} {limit level : Nat} {branches : List Branch}

/-- Two runs with the same result that agree but for the visits of branches that the second one reports:
after events that both have, those of the first `n` branches follow, and of all of them if the runs
succeed. -/
structure ApartAt (limit level : Nat) (branches : List Branch) (x y : Traced α) : Prop where
  result : x.result = y.result
  events : ∃ first n, n ≤ branches.length ∧ (∀ a, x.result = .ok a → n = branches.length) ∧
    x.events = first ++ (branches.take n).flatMap (fun b => (b.reduceBelow limit level).events) ∧
    y.events = first ++ (branches.take n).flatMap
      (fun b => Branch.visit limit level ++ (b.reduceBelow limit level).events)

namespace ApartAt

theorem of_error {x : Traced α} {err : CompileError} (h : x.result = .error err) :
    ApartAt limit level branches x x := by
  refine ⟨rfl, x.events, 0, Nat.zero_le _, fun a ha => ?_, by simp, by simp⟩
  cases h.symm.trans ha

/-- What both runs do before adds the same events to both. -/
theorem after (p : Traced β) {x y : β → Traced α} (h : ∀ b, ApartAt limit level branches (x b) (y b)) :
    ApartAt limit level branches (p >>= x) (p >>= y) := by
  cases hp : p.result with
  | error err =>
      have hx := result_bind_of_error x hp
      have hsame : p >>= y = p >>= x := by
        apply ext
        · rw [events_bind_of_error _ hp, events_bind_of_error _ hp]
        · rw [result_bind_of_error _ hp, hx]
      rw [hsame]
      exact of_error hx
  | ok b =>
      obtain ⟨first, n, hn, hall, hx, hy⟩ := (h b).events
      refine ⟨?_, p.events ++ first, n, hn, ?_, ?_, ?_⟩
      · rw [result_bind_of_ok _ hp, result_bind_of_ok _ hp, (h b).result]
      · rw [result_bind_of_ok _ hp]
        exact hall
      · rw [events_bind_of_ok _ hp, hx, List.append_assoc]
      · rw [events_bind_of_ok _ hp, hy, List.append_assoc]

/-- What is made of the results makes no difference. -/
theorem map {x y : Traced α} (h : ApartAt limit level branches x y) (f : α → β) :
    ApartAt limit level branches (x >>= fun a => ok (f a)) (y >>= fun a => ok (f a)) := by
  obtain ⟨first, n, hn, hall, hx, hy⟩ := h.events
  refine ⟨?_, first, n, hn, ?_, ?_, ?_⟩
  · rw [result_map, result_map, h.result]
  · intro b hb
    rw [result_map] at hb
    cases hresult : x.result with
    | error err =>
        rw [hresult] at hb
        cases hb
    | ok a => exact hall a hresult
  · rw [events_map, hx]
  · rw [events_map, hy]

end ApartAt

/-! ### One branch, and a list of them -/

theorem Expr.reduce_branch (limit level : Nat) (b : Branch) :
    (Expr.branch b).reduce limit level =
      nested limit level fun level => emit (.visited .branch level) >>= fun _ => b.reduce limit level := by
  rw [Expr.reduce]
  rfl

theorem Expr.result_reduce_branch (limit level : Nat) (b : Branch) :
    ((Expr.branch b).reduce limit level).result = (b.reduceBelow limit level).result := by
  rw [reduce_branch, Branch.reduceBelow, nested, nested]
  split
  · rfl
  · exact result_bind_of_ok _ (result_emit _)

theorem Expr.events_reduce_branch (limit level : Nat) (b : Branch) :
    ((Expr.branch b).reduce limit level).events =
      Branch.visit limit level ++ (b.reduceBelow limit level).events := by
  rw [reduce_branch, Branch.reduceBelow, Branch.visit, nested, nested]
  split
  · rfl
  · exact events_bind_of_ok _ (result_emit _)

/-- Branches of a `switch` in turn, and by themselves in turn: the runs end at the same branch. -/
theorem Expr.reduceBranches_apart (limit level : Nat) (branches : List Branch) :
    (reduceBranches limit level branches).result =
      (reduceAll limit level (branches.map branch)).result ∧
    ∃ n ≤ branches.length,
      (∀ fs, (reduceBranches limit level branches).result = .ok fs → n = branches.length) ∧
      (reduceBranches limit level branches).events =
        (branches.take n).flatMap (fun b => (b.reduceBelow limit level).events) ∧
      (reduceAll limit level (branches.map branch)).events = (branches.take n).flatMap
        (fun b => Branch.visit limit level ++ (b.reduceBelow limit level).events) := by
  induction branches with
  | nil => exact ⟨rfl, 0, Nat.le_refl _, fun _ _ => rfl, rfl, rfl⟩
  | cons b bs ih =>
      obtain ⟨hresult, n, hn, hall, hbelow, halone⟩ := ih
      have hb := result_reduce_branch limit level b
      rw [reduceBranches, List.map_cons, reduceAll, ← Branch.reduceBelow]
      cases hfirst : (b.reduceBelow limit level).result with
      | error err =>
          rw [hfirst] at hb
          rw [result_bind_of_error _ hfirst, result_bind_of_error _ hb, events_bind_of_error _ hfirst,
            events_bind_of_error _ hb, events_reduce_branch]
          exact ⟨rfl, 1, Nat.succ_le_succ (Nat.zero_le _), nofun, by simp, by simp⟩
      | ok f =>
          rw [hfirst] at hb
          rw [result_bind_of_ok _ hfirst, result_bind_of_ok _ hb, events_bind_of_ok _ hfirst,
            events_bind_of_ok _ hb, events_reduce_branch, result_map, result_map, events_map,
            events_map, hresult, hbelow, halone]
          refine ⟨rfl, n + 1, Nat.succ_le_succ hn, fun fs hfs => ?_, by simp, by simp⟩
          cases hrest : (reduceAll limit level (bs.map branch)).result with
          | error err =>
              rw [hrest] at hfs
              cases hfs
          | ok gs => rw [hall gs (hresult.trans hrest), List.length_cons]

/-! ### The branches of a `switch` -/

theorem Expr.switch_apart (limit level : Nat) (pattern : Expr) (hbranches : branches ≠ []) :
    ApartAt limit (level + 1) branches ((switch pattern branches).reduce limit level)
      (reduceApart limit level pattern branches) := by
  rw [reduce, reduceApart, nested, nested]
  by_cases h : limit ≤ level
  · rw [if_pos h, if_pos h]
    exact .of_error rfl
  · rw [if_neg h, if_neg h]
    refine .after _ fun _ => ?_
    simp only [List.isEmpty_iff, if_neg hbranches]
    refine .after _ fun pattern => .map ?_ _
    obtain ⟨hresult, n, hn, hall, hbelow, halone⟩ := reduceBranches_apart limit (level + 1) branches
    exact ⟨hresult, [], n, hn, hall, hbelow, halone⟩

end Apart

/-! ### The text of a branch -/

namespace Expr

theorem result_reduce_eq_ok_iff {e : Expr} {limit level : Nat} {formula : String} :
    (e.reduce limit level).result = .ok formula ↔
      (∀ x ∈ (Subject.expr e).entries (level + 1), x.fault? limit = none) ∧ formula = e.formula := by
  have hresult := Entry.result_replay limit ((Subject.expr e).entries (level + 1))
  rw [reduce_eq_replay, Traced.result_bind_eq_ok_iff, ← List.findSome?_eq_none_iff, hresult]
  cases ((Subject.expr e).entries (level + 1)).findSome? (Entry.fault? limit) with
  | some err => simp
  | none => simp [eq_comm]

/-- What is reduced to a fragment at some level compiles by itself, under a limit that is smaller by as
many levels. -/
theorem compile_of_reduce {e : Expr} {limit limit' level : Nat} {formula : String}
    (hlimit : limit ≤ limit' + level) (h : (e.reduce limit level).result = .ok formula) :
    e.compile limit' = .ok formula := by
  obtain ⟨hfaultless, rfl⟩ := result_reduce_eq_ok_iff.mp h
  refine compile_eq_ok_iff.mpr ⟨fun x hx => ?_, rfl⟩
  have hlower : x.lower level ∈ (Subject.expr e).entries (level + 1) := by
    rw [Nat.add_comm, Subject.entries_add]
    exact List.mem_map_of_mem hx
  obtain ⟨hlevel, hown⟩ := Entry.fault?_eq_none.mp (hfaultless _ hlower)
  have hle : x.level + level ≤ limit := hlevel
  exact Entry.fault?_eq_none.mpr ⟨by omega, hown⟩

theorem forall₂_of_reduceAll {limit level : Nat} {es : List Expr} {fragments : List String}
    (h : (reduceAll limit level es).result = .ok fragments) :
    List.Forall₂ (fun e fragment => (e.reduce limit level).result = .ok fragment) es fragments := by
  induction es generalizing fragments with
  | nil =>
      cases h
      exact .nil
  | cons e es ih =>
      rw [reduceAll] at h
      obtain ⟨fragment, he, h⟩ := Traced.result_bind_eq_ok_iff.mp h
      obtain ⟨fragments, hes, h⟩ := Traced.result_bind_eq_ok_iff.mp h
      cases h
      exact .cons he (ih hes)

theorem reduceApart_eq_ok {limit level : Nat} {pattern : Expr} {branches : List Branch} {formula : String}
    (h : (reduceApart limit level pattern branches).result = .ok formula) :
    ∃ text texts, formula = Fragment.call "SWITCH" (text :: texts) ∧
      (pattern.reduce limit (level + 1)).result = .ok text ∧
      List.Forall₂ (fun b text => ((branch b).reduce limit (level + 1)).result = .ok text)
        branches texts := by
  rw [reduceApart, nested] at h
  split at h
  · cases h
  · rw [Traced.result_bind_of_ok _ (result_emit _)] at h
    obtain ⟨text, hpattern, h⟩ := Traced.result_bind_eq_ok_iff.mp h
    obtain ⟨texts, hbranches, h⟩ := Traced.result_bind_eq_ok_iff.mp h
    cases h
    exact ⟨text, texts, rfl, hpattern, List.forall₂_map_left_iff.mp (forall₂_of_reduceAll hbranches)⟩

/-- A branch takes as many levels below a `switch` as by itself. -/
theorem height_branch (b : Branch) : (branch b).height = (Subject.branch b).height := by
  rw [height, Subject.height_eq, Subject.height_eq]
  rfl

/-- A `switch` reduces to what its pattern and its branches reduce to one level below it, where each
branch is an expression by itself. The runs have the same result and end at the same place, whatever the
limit and the level; where branches stand by themselves, there is one more event for each that is
reached within the limit, its visit. So the text of a branch in any `switch` is the formula of the branch
by itself, under every limit that admits as many levels. -/
theorem switch_agrees_with_branches_alone (pattern : Expr) {branches : List Branch}
    (hbranches : branches ≠ []) (limit level : Nat) :
    let whole := (switch pattern branches).reduce limit level
    ApartAt limit (level + 1) branches whole (reduceApart limit level pattern branches) ∧
    (∀ b, ((branch b).reduce limit (level + 1)).events =
      Branch.visit limit (level + 1) ++ (b.reduceBelow limit (level + 1)).events) ∧
    (∀ b, (branch b).height = (Subject.branch b).height) ∧
    ∀ formula, whole.result = .ok formula → ∃ text texts,
      formula = Fragment.call "SWITCH" (text :: texts) ∧
      (pattern.reduce limit (level + 1)).result = .ok text ∧
      List.Forall₂ (fun b text => (b.reduceBelow limit (level + 1)).result = .ok text ∧
        (∀ limit', limit ≤ limit' + (level + 1) → (branch b).compile limit' = .ok text) ∧
        ∀ limit' text', (branch b).compile limit' = .ok text' → text' = text) branches texts := by
  intro whole
  have hapart := switch_apart limit level pattern hbranches
  refine ⟨hapart, fun b => events_reduce_branch limit (level + 1) b, height_branch,
    fun formula h => ?_⟩
  obtain ⟨text, texts, hformula, hpattern, htexts⟩ := reduceApart_eq_ok (hapart.result.symm.trans h)
  refine ⟨text, texts, hformula, hpattern, htexts.imp fun b text hb => ?_⟩
  refine ⟨(result_reduce_branch limit (level + 1) b).symm.trans hb,
    fun limit' hlimit => compile_of_reduce hlimit hb, fun limit' text' htext' => ?_⟩
  rw [(compile_eq_ok_iff.mp htext').2, (result_reduce_eq_ok_iff.mp hb).2]

/-- A limit that admits the first branch and not what is below it: by itself the branch is visited. -/
theorem branches_alone_of_cut_switch :
    let branches : List Branch := [.when (.field "c") (.field "x"), .otherwise (.text "y")]
    let whole := (switch (.field "p") branches).reduce 2 0
    let apart := reduceApart 2 0 (.field "p") branches
    branches ≠ [] ∧ whole.result = .error (.tooDeep 2) ∧
      whole.events = [.visited .switch 1, .visited .field 2, .tooDeep 2] ∧
      apart.events = [.visited .switch 1, .visited .field 2, .visited .branch 2, .tooDeep 2] ∧
      ApartAt 2 1 branches whole apart := by
  intro branches whole apart
  have hbranches : branches ≠ [] := nofun
  have hagree := switch_agrees_with_branches_alone (.field "p") hbranches 2 0
  exact ⟨hbranches, rfl, rfl, rfl, hagree.1⟩

end Expr
end SheetFormula

import Mathlib.Data.List.Induction
import SheetFormula.Compile

/-! What a cell replies over any run of requests. The requests before one decide the reply to it: the last
attachment or removal among them leaves the root that is shown, compiled or handed back next. The
invariant of a run is that what has been handed back and what is still in the cell are together what
has been attached, in this order. -/

namespace SheetFormula
namespace Cell

/-- What a cell can be asked for. -/
inductive Request where
  | attach (e : Expr)
  | detach
  | root
  | compile
  /-- The formula of an expression that is not put into the cell. -/
  | compileApart (e : Expr)
  /-- A copy of the cell, to go on with in its place. -/
  | clone

inductive Reply where
  /-- What was in the cell and is given back. -/
  | handed (previous : Option Expr)
  /-- What is in the cell and stays there. -/
  | shown (root : Option Expr)
  | compiled (result : Except CompileError String)
  | cloned

def clone (c : Cell) : Cell := { root := c.root, limit := c.limit }

/-- The reply to a request, and the cell after it. -/
def serve (c : Cell) : Request → Reply × Cell
  | .attach e => (.handed (c.attach e).1, (c.attach e).2)
  | .detach => (.handed c.detach.1, c.detach.2)
  | .root => (.shown c.root, c)
  | .compile => (.compiled c.compile, c)
  | .compileApart e => (.compiled (e.compile defaultLimit), c)
  | .clone => (.cloned, c.clone)

/-- The replies to requests one after another, and the cell after them. -/
def run (c : Cell) : List Request → List Reply × Cell
  | [] => ([], c)
  | r :: rs => ((c.serve r).1 :: ((c.serve r).2.run rs).1, ((c.serve r).2.run rs).2)

/-! ### Histories -/

/-- Whether a request replaces what is in the cell. -/
def Request.exchanges : Request → Bool
  | attach _ | detach => true
  | _ => false

def Request.attached? : Request → Option Expr
  | attach e => some e
  | _ => none

def Reply.handed? : Reply → Option Expr
  | handed previous => previous
  | _ => none

/-- What the last exchange of a history leaves in a cell that was empty before. -/
def held (past : List Request) : Option Expr :=
  (past.reverse.find? Request.exchanges).bind Request.attached?

/-- The reply to a request after a history that began with an empty cell. -/
def Request.expected (limit : Nat) (past : List Request) : Request → Reply
  | attach _ | detach => .handed (held past)
  | root => .shown (held past)
  | compile => .compiled <|
    match held past with
    | some e => e.compile limit
    | none => .error (.missing .root)
  | compileApart e => .compiled (e.compile defaultLimit)
  | clone => .cloned

theorem held_concat (past : List Request) (r : Request) :
    held (past ++ [r]) = if r.exchanges then r.attached? else held past := by
  rw [held, List.reverse_append, List.reverse_singleton, List.singleton_append]
  by_cases h : r.exchanges = true
  · rw [if_pos h, List.find?_cons_of_pos h, Option.bind_some]
  · rw [if_neg h, List.find?_cons_of_neg h, held]

/-- What is held was attached, and not replaced or taken out since. -/
theorem held_eq_some_iff {past : List Request} {e : Expr} :
    held past = some e ↔ ∃ before middle, past = before ++ .attach e :: middle ∧
      ∀ r ∈ middle, r.exchanges = false := by
  induction past using List.reverseRecOn with
  | nil => simp [held]
  | append_singleton past last ih =>
      rw [held_concat]
      constructor
      · intro h
        split at h
        next =>
          cases last with
          | attach e' =>
              cases h
              exact ⟨past, [], rfl, nofun⟩
          | _ => cases h
        next hlast =>
          obtain ⟨before, middle, rfl, hmiddle⟩ := ih.mp h
          refine ⟨before, middle ++ [last], by simp, ?_⟩
          exact List.forall_mem_append.mpr
            ⟨hmiddle, List.forall_mem_singleton.mpr (Bool.eq_false_iff.mpr hlast)⟩
      · rintro ⟨before, middle, heq, hmiddle⟩
        rcases List.eq_nil_or_concat middle with rfl | ⟨middle, r, rfl⟩
        · obtain ⟨rfl, hlast⟩ := List.append_inj' heq rfl
          cases hlast
          rfl
        · rw [List.concat_eq_append] at heq hmiddle
          rw [← List.cons_append, ← List.append_assoc] at heq
          obtain ⟨rfl, hlast⟩ := List.append_inj' heq rfl
          cases hlast
          obtain ⟨hbefore, hlast⟩ := List.forall_mem_append.mp hmiddle
          rw [if_neg (Bool.eq_false_iff.mp (hlast _ List.mem_cons_self))]
          exact ih.mpr ⟨before, middle, rfl, hbefore⟩

/-! ### One request -/

theorem serve_snd (c : Cell) (r : Request) :
    (c.serve r).2 = ⟨if r.exchanges then r.attached? else c.root, c.limit⟩ := by
  cases r <;> rfl

/-- A request hands back what it takes out of the cell, and the cell has what is attached. -/
theorem handed_serve (c : Cell) (r : Request) :
    (c.serve r).1.handed?.toList ++ (c.serve r).2.root.toList =
      c.root.toList ++ r.attached?.toList := by
  cases r with
  | attach | detach => rfl
  | _ => exact (List.append_nil _).symm

theorem serve_fst {past : List Request} {limit : Nat} (r : Request) :
    (serve ⟨held past, limit⟩ r).1 = r.expected limit past := by
  cases r with
  | compile =>
      unfold serve Request.expected
      cases held past <;> rfl
  | _ => rfl

/-! ### Runs -/

theorem run_append (c : Cell) (rs ss : List Request) :
    c.run (rs ++ ss) = ((c.run rs).1 ++ ((c.run rs).2.run ss).1, ((c.run rs).2.run ss).2) := by
  induction rs generalizing c with
  | nil => rfl
  | cons r rs ih =>
      rw [List.cons_append, run, ih]
      rfl

theorem length_run (c : Cell) (rs : List Request) : (c.run rs).1.length = rs.length := by
  induction rs generalizing c with
  | nil => rfl
  | cons r rs ih => rw [run, List.length_cons, List.length_cons, ih]

/-- The cell after a run. -/
theorem run_empty_snd (limit : Nat) (rs : List Request) :
    ((empty limit).run rs).2 = ⟨held rs, limit⟩ := by
  induction rs using List.reverseRecOn with
  | nil => rfl
  | append_singleton rs r ih =>
      rw [run_append, ih, held_concat]
      exact serve_snd _ r

theorem filterMap_cons_eq_append {α β : Type} (f : α → Option β) (a : α) (as : List α) :
    (a :: as).filterMap f = (f a).toList ++ as.filterMap f := by
  cases h : f a <;> simp [h]

/-- What a run hands back and what it leaves in the cell are, in order, what was there and what was
attached. -/
theorem handed_run (c : Cell) (rs : List Request) :
    (c.run rs).1.filterMap Reply.handed? ++ (c.run rs).2.root.toList =
      c.root.toList ++ rs.filterMap Request.attached? := by
  induction rs generalizing c with
  | nil => rw [run, List.filterMap_nil, List.filterMap_nil, List.nil_append, List.append_nil]
  | cons r rs ih =>
      calc (c.run (r :: rs)).1.filterMap Reply.handed? ++ (c.run (r :: rs)).2.root.toList
        _ = (c.serve r).1.handed?.toList ++
            (((c.serve r).2.run rs).1.filterMap Reply.handed? ++
              ((c.serve r).2.run rs).2.root.toList) := by
            rw [run, filterMap_cons_eq_append, List.append_assoc]
        _ = ((c.serve r).1.handed?.toList ++ (c.serve r).2.root.toList) ++
            rs.filterMap Request.attached? := by rw [ih, List.append_assoc]
        _ = c.root.toList ++ (r :: rs).filterMap Request.attached? := by
            rw [handed_serve, filterMap_cons_eq_append, List.append_assoc]

theorem reply_run (limit : Nat) (before : List Request) (r : Request) (after : List Request) :
    ((empty limit).run (before ++ r :: after)).1[before.length]? = some (r.expected limit before) := by
  have hlength := length_run (empty limit) before
  rw [run_append, List.getElem?_append_right (Nat.le_of_eq hlength), hlength, Nat.sub_self,
    run_empty_snd, run, List.getElem?_cons_zero, serve_fst]

/-- A run of requests to a cell that is empty at first. What is handed back in its course is, in order,
what was attached, but for the root that the cell still has. This root is what was attached last and not
replaced or taken out since, and the limit is the one the cell was made with. Each request has the reply
that those before it determine, and one that is not an exchange leaves the cell as it is, whatever the
reply. An expression that is attached is handed back by the next exchange. -/
theorem run_hands_back_each_root (limit : Nat) (rs : List Request) :
    let replies := ((empty limit).run rs).1
    let final := ((empty limit).run rs).2
    replies.filterMap Reply.handed? ++ final.root.toList = rs.filterMap Request.attached? ∧
    final = ⟨held rs, limit⟩ ∧ replies.length = rs.length ∧
    (∀ e, held rs = some e ↔ ∃ before middle, rs = before ++ .attach e :: middle ∧
      ∀ r ∈ middle, r.exchanges = false) ∧
    (∀ before r after, rs = before ++ r :: after →
      replies[before.length]? = some (r.expected limit before) ∧
      (r.exchanges = false →
        ((empty limit).run (before ++ [r])).2 = ((empty limit).run before).2)) ∧
    (∀ before e middle r after, rs = (before ++ .attach e :: middle) ++ r :: after →
      (∀ m ∈ middle, m.exchanges = false) → r.exchanges = true →
      replies[(before ++ .attach e :: middle).length]? = some (.handed (some e))) ∧
    (CompileError.missing .root).message = "Missing value: no root node attached" := by
  intro replies final
  refine ⟨(empty limit).handed_run rs, run_empty_snd limit rs, length_run _ rs,
    fun e => held_eq_some_iff, ?_, ?_, rfl⟩
  · rintro before r after rfl
    refine ⟨reply_run limit before r after, fun hr => ?_⟩
    rw [run_empty_snd, run_empty_snd, held_concat, hr]
    rfl
  · rintro before e middle r after rfl hmiddle hr
    have hheld : held (before ++ .attach e :: middle) = some e :=
      held_eq_some_iff.mpr ⟨before, middle, rfl, hmiddle⟩
    rw [reply_run]
    cases r with
    | attach | detach => rw [Request.expected, hheld]
    | _ => cases hr

end Cell
end SheetFormula

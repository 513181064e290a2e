import Mathlib.Data.List.Forall2
import SheetFormula.Proofs.Registry.Build

/-! The order in which a description is built. The calls of a description are made in post-order: those
in the arguments of a call come before it, from left to right. Building succeeds if all of them do, and
else fails as the first one that does. An expression consists of the applications that the calls have
become, except that arguments which an operation leaves are not in it (`Operation.taken`). -/

namespace SheetFormula

/-- The applications of operations that an expression is put together from, in post-order. -/
def Expr.applications (e : Expr) : List Expr :=
  (e.arguments.attach.flatMap fun a => a.1.applications) ++ if e.isLiteral then [] else [e]
termination_by sizeOf e
decreasing_by exact sizeOf_lt_of_mem_arguments a.2

theorem Expr.applications_of_isLiteral {e : Expr} (h : e.isLiteral = true) : e.applications = [] := by
  cases e with
  | text | number | field => rw [applications]; rfl
  | _ => cases h

theorem Expr.applications_of_not_isLiteral {e : Expr} (h : e.isLiteral = false) :
    e.applications = e.arguments.flatMap applications ++ [e] := by
  rw [applications, List.flatMap_subtype fun _ _ => rfl, List.unattach_attach, h]
  rfl

theorem Registry.isLiteral_of_build_eq_ok {r : Registry} {op : String} {es : List Expr} {e : Expr}
    (h : r.build op es = .ok e) : e.isLiteral = false := by
  obtain ⟨d, -, -, hbuild⟩ := build_eq_ok_iff.mp h
  have hoperation := (Operation.builds_of_build_eq_ok hbuild).operation
  cases e with
  | text | number | field =>
      rw [← hoperation] at hbuild
      cases hbuild
  | _ => rfl

/-- How many of `n` arguments the function with a given name takes, if it is known. -/
def Registry.takes (r : Registry) (op : String) (n : Nat) : Nat :=
  match r.get? op with
  | none => n
  | some d => if d.operation.isVariadic then n else d.operation.required + d.operation.optional

theorem Registry.taken_eq_take {r : Registry} {op : String} {d : Definition} (h : r.get? op = some d)
    (es : List Expr) : d.operation.taken es = es.take (r.takes op es.length) := by
  simp only [Operation.taken, takes, h]
  split
  · exact List.take_length.symm
  · rfl

namespace Description

mutual

/-- The calls in a description, in post-order. -/
def calls : Description → List Description
  | text _ | number _ | field _ => []
  | call op arguments => callsAll arguments ++ [call op arguments]

def callsAll : List Description → List Description
  | [] => []
  | d :: ds => d.calls ++ callsAll ds

end

mutual

/-- The calls in a description, in post-order, without those in arguments that are left. -/
def takenCalls (r : Registry) : Description → List Description
  | text _ | number _ | field _ => []
  | call op arguments =>
    takenCallsAmong r (r.takes op arguments.length) arguments ++ [call op arguments]

/-- The calls in the first `n` descriptions of a list. -/
def takenCallsAmong (r : Registry) (n : Nat) : List Description → List Description
  | [] => []
  | d :: ds =>
    match n with
    | 0 => []
    | n + 1 => d.takenCalls r ++ takenCallsAmong r n ds

end

variable {r : Registry} {d : Description} {ds : List Description} {op : String} {e : Expr}
  {es : List Expr} {err : BuildError}

theorem callsAll_eq_flatMap (ds : List Description) : callsAll ds = ds.flatMap calls := by
  induction ds with
  | nil => rfl
  | cons d ds ih => rw [callsAll, ih, List.flatMap_cons]

theorem calls_call (op : String) (ds : List Description) :
    (call op ds).calls = ds.flatMap calls ++ [call op ds] := by
  rw [calls, callsAll_eq_flatMap]

theorem call_mem_calls (op : String) (ds : List Description) : call op ds ∈ (call op ds).calls := by
  rw [calls_call]
  exact List.mem_append_right _ List.mem_cons_self

theorem mem_calls_of_argument {c : Description} (hd : d ∈ ds) (hc : c ∈ d.calls) (op : String) :
    c ∈ (call op ds).calls := by
  rw [calls_call]
  exact List.mem_append_left _ (List.mem_flatMap.mpr ⟨d, hd, hc⟩)

theorem takenCallsAmong_eq_flatMap (n : Nat) (ds : List Description) :
    takenCallsAmong r n ds = (ds.take n).flatMap (takenCalls r) := by
  induction ds generalizing n with
  | nil => rw [takenCallsAmong, List.take_nil, List.flatMap_nil]
  | cons d ds ih =>
      cases n with
      | zero => rw [takenCallsAmong, List.take_zero, List.flatMap_nil]
      | succ n => rw [takenCallsAmong, ih, List.take_succ_cons, List.flatMap_cons]

theorem takenCalls_call (op : String) (ds : List Description) :
    (call op ds).takenCalls r = (ds.take (r.takes op ds.length)).flatMap (takenCalls r) ++ [call op ds] := by
  rw [takenCalls, takenCallsAmong_eq_flatMap]

/-- The expressions that descriptions build: a call builds what the registry makes of the expressions
of its arguments. -/
inductive Built (r : Registry) : Description → Expr → Prop
  | text (value : String) : Built r (.text value) (.text value)
  | number (value : Binary64) : Built r (.number value) (.number value)
  | field (name : String) : Built r (.field name) (.field name)
  | call {op : String} {arguments : List Description} {es : List Expr} {e : Expr}
      (harguments : List.Forall₂ (Built r) arguments es) (h : r.build op es = .ok e) :
      Built r (.call op arguments) e

/-- Whether a call is made and fails: its arguments build, but the registry refuses their expressions. -/
def FailsWith (r : Registry) (c : Description) (err : BuildError) : Prop :=
  ∃ op arguments es, c = call op arguments ∧ List.Forall₂ (Built r) arguments es ∧
    r.build op es = .error err

/-- Whether an error is that of the first of some calls that does not build. -/
def FirstFailure (r : Registry) (cs : List Description) (err : BuildError) : Prop :=
  ∃ before c after, cs = before ++ c :: after ∧ (∀ b ∈ before, ∃ e, Built r b e) ∧ FailsWith r c err

/-! ### What is built -/

theorem buildAll_eq_ok_iff_forall₂ (h : ∀ d ∈ ds, ∀ e, d.build r = .ok e ↔ Built r d e) :
    buildAll r ds = .ok es ↔ List.Forall₂ (Built r) ds es := by
  induction ds generalizing es with
  | nil => cases es <;> simp [buildAll]
  | cons d ds ih =>
      obtain ⟨hd, hds⟩ := List.forall_mem_cons.mp h
      rw [buildAll, bind_eq_ok_iff, List.forall₂_cons_left_iff]
      constructor
      · rintro ⟨e, he, hrest⟩
        obtain ⟨es, hes, hrest⟩ := bind_eq_ok_iff.mp hrest
        cases hrest
        exact ⟨e, es, (hd e).mp he, (ih hds).mp hes, rfl⟩
      · rintro ⟨e, es, he, hes, rfl⟩
        exact ⟨e, (hd e).mpr he, bind_eq_ok_iff.mpr ⟨es, (ih hds).mpr hes, rfl⟩⟩

theorem build_eq_ok_iff : d.build r = .ok e ↔ Built r d e := by
  induction d using Description.induction generalizing e with
  | text value | number value | field value =>
      rw [build, Except.ok.injEq]
      constructor
      · rintro rfl
        constructor
      · rintro ⟨⟩
        rfl
  | call op ds ih =>
      rw [build, bind_eq_ok_iff]
      constructor
      · rintro ⟨es, hes, he⟩
        exact .call ((buildAll_eq_ok_iff_forall₂ fun d hd e => ih d hd).mp hes) he
      · rintro ⟨⟩
        rename_i es harguments he
        exact ⟨es, (buildAll_eq_ok_iff_forall₂ fun d hd e => ih d hd).mpr harguments, he⟩

theorem buildAll_eq_ok_iff_built : buildAll r ds = .ok es ↔ List.Forall₂ (Built r) ds es :=
  buildAll_eq_ok_iff_forall₂ fun _ _ _ => build_eq_ok_iff

theorem Built.unique {e' : Expr} (h : Built r d e) (h' : Built r d e') : e = e' :=
  Except.ok.inj ((build_eq_ok_iff.mpr h).symm.trans (build_eq_ok_iff.mpr h'))

theorem built_call_iff : Built r (call op ds) e ↔
    ∃ es, List.Forall₂ (Built r) ds es ∧ r.build op es = .ok e := by
  constructor
  · rintro ⟨⟩
    exact ⟨_, ‹_›, ‹_›⟩
  · rintro ⟨es, hes, he⟩
    exact .call hes he

/-! ### Which descriptions build -/

theorem exists_forall₂_built_iff :
    (∃ es, List.Forall₂ (Built r) ds es) ↔ ∀ d ∈ ds, ∃ e, Built r d e := by
  induction ds with
  | nil => simp
  | cons d ds ih =>
      rw [List.forall_mem_cons, ← ih]
      constructor
      · rintro ⟨es, hes⟩
        obtain ⟨e, rest, he, hrest, rfl⟩ := List.forall₂_cons_left_iff.mp hes
        exact ⟨⟨e, he⟩, rest, hrest⟩
      · rintro ⟨⟨e, he⟩, es, hes⟩
        exact ⟨e :: es, .cons he hes⟩

/-- A description builds if and only if all of its calls do. -/
theorem exists_built_iff : (∃ e, Built r d e) ↔ ∀ c ∈ d.calls, ∃ e, Built r c e := by
  induction d using Description.induction with
  | text | number | field => exact ⟨fun _ => nofun, fun _ => ⟨_, by constructor⟩⟩
  | call op ds ih =>
      rw [calls_call, List.forall_mem_append, List.forall_mem_singleton, List.forall_mem_flatMap]
      refine ⟨fun h => ⟨fun d hd => ?_, h⟩, And.right⟩
      obtain ⟨e, he⟩ := h
      obtain ⟨es, hes, -⟩ := built_call_iff.mp he
      exact (ih d hd).mp (exists_forall₂_built_iff.mp ⟨es, hes⟩ d hd)

theorem exists_forall₂_built_iff_callsAll :
    (∃ es, List.Forall₂ (Built r) ds es) ↔ ∀ c ∈ callsAll ds, ∃ e, Built r c e := by
  rw [exists_forall₂_built_iff, callsAll_eq_flatMap, List.forall_mem_flatMap]
  exact forall₂_congr fun d _ => exists_built_iff

/-! ### Which call fails -/

theorem not_firstFailure_nil : ¬ FirstFailure r [] err := by
  rintro ⟨before, c, after, h, -, -⟩
  cases before <;> cases h

theorem firstFailure_singleton {c : Description} : FirstFailure r [c] err ↔ FailsWith r c err := by
  constructor
  · rintro ⟨before, c, after, h, -, hc⟩
    rcases List.append_eq_singleton_iff.mp h.symm with ⟨-, h⟩ | ⟨-, h⟩
    · cases h
      exact hc
    · cases h
  · intro h
    exact ⟨[], c, [], rfl, nofun, h⟩

/-- What fails first in one list after another is in the second only if all of the first builds. -/
theorem firstFailure_append {cs cs' : List Description} : FirstFailure r (cs ++ cs') err ↔
    FirstFailure r cs err ∨ (∀ c ∈ cs, ∃ e, Built r c e) ∧ FirstFailure r cs' err := by
  constructor
  · rintro ⟨before, c, after, h, hbefore, hc⟩
    rcases List.append_eq_append_iff.mp h with ⟨mid, rfl, hsplit⟩ | ⟨mid, rfl, hsplit⟩
    · obtain ⟨hcs, hmid⟩ := List.forall_mem_append.mp hbefore
      exact Or.inr ⟨hcs, mid, c, after, hsplit, hmid, hc⟩
    · cases mid with
      | nil =>
          rw [List.append_nil]
          exact Or.inr ⟨hbefore, [], c, after, hsplit.symm, nofun, hc⟩
      | cons d mid =>
          obtain ⟨rfl, rfl⟩ := List.cons_eq_cons.mp hsplit
          exact Or.inl ⟨before, c, mid, rfl, hbefore, hc⟩
  · rintro (⟨before, c, after, rfl, hbefore, hc⟩ | ⟨hcs, before, c, after, rfl, hbefore, hc⟩)
    · exact ⟨before, c, after ++ cs', by rw [List.append_assoc, List.cons_append], hbefore, hc⟩
    · exact ⟨cs ++ before, c, after, by rw [List.append_assoc],
        List.forall_mem_append.mpr ⟨hcs, hbefore⟩, hc⟩

theorem failsWith_call_iff : FailsWith r (call op ds) err ↔
    ∃ es, List.Forall₂ (Built r) ds es ∧ r.build op es = .error err := by
  constructor
  · rintro ⟨_, _, es, ⟨⟩, hes, herr⟩
    exact ⟨es, hes, herr⟩
  · rintro ⟨es, hes, herr⟩
    exact ⟨op, ds, es, rfl, hes, herr⟩

theorem buildAll_eq_error_iff_firstFailure
    (h : ∀ d ∈ ds, ∀ err, d.build r = .error err ↔ FirstFailure r d.calls err) :
    buildAll r ds = .error err ↔ FirstFailure r (callsAll ds) err := by
  induction ds with
  | nil => exact ⟨nofun, fun h => absurd h not_firstFailure_nil⟩
  | cons d ds ih =>
      obtain ⟨hd, hds⟩ := List.forall_mem_cons.mp h
      have hrest (e : Expr) :
          (buildAll r ds >>= fun es => pure (e :: es)) = .error err ↔ buildAll r ds = .error err :=
        bind_eq_error_iff.trans (or_iff_left fun ⟨_, _, h⟩ => nomatch h)
      rw [buildAll, bind_eq_error_iff, hd, callsAll, firstFailure_append, ← exists_built_iff, ← ih hds,
        ← exists_and_right]
      simp only [hrest, build_eq_ok_iff]

theorem build_eq_error_iff : d.build r = .error err ↔ FirstFailure r d.calls err := by
  induction d using Description.induction generalizing err with
  | text | number | field => exact ⟨nofun, fun h => absurd h not_firstFailure_nil⟩
  | call op ds ih =>
      rw [build, bind_eq_error_iff, buildAll_eq_error_iff_firstFailure fun d hd err => ih d hd, calls,
        firstFailure_append, firstFailure_singleton, failsWith_call_iff]
      simp only [buildAll_eq_ok_iff_built]
      apply or_congr_right
      refine ⟨fun ⟨es, hes, herr⟩ => ⟨?_, es, hes, herr⟩, And.right⟩
      exact exists_forall₂_built_iff_callsAll.mp ⟨es, hes⟩

/-- An error in an argument comes before those of later arguments and of the call. -/
theorem build_eq_error_of_argument (op : String) {before after : List Description} {a : Description}
    (hbefore : ∀ b ∈ before, ∃ e, b.build r = .ok e) (ha : a.build r = .error err) :
    (call op (before ++ a :: after)).build r = .error err := by
  have hbuilt : ∀ c ∈ callsAll before, ∃ e, Built r c e := by
    simp only [build_eq_ok_iff] at hbefore
    exact exists_forall₂_built_iff_callsAll.mp (exists_forall₂_built_iff.mpr hbefore)
  rw [build_eq_error_iff, calls_call, List.flatMap_append, List.flatMap_cons, ← callsAll_eq_flatMap,
    firstFailure_append, firstFailure_append, firstFailure_append]
  exact Or.inl (Or.inr ⟨hbuilt, Or.inl (build_eq_error_iff.mp ha)⟩)

/-! ### What a call contributes -/

/-- The applications in an expression are what the calls of its description have built, in the same
order and one for each. -/
theorem Built.forall₂_applications (h : Built r d e) :
    List.Forall₂ (Built r) (d.takenCalls r) e.applications := by
  induction d using Description.induction generalizing e with
  | text | number | field =>
      cases h
      rw [takenCalls, Expr.applications_of_isLiteral rfl]
      exact .nil
  | call op ds ih =>
      obtain ⟨es, hes, hbuild⟩ := built_call_iff.mp h
      obtain ⟨D, hget, -, hD⟩ := Registry.build_eq_ok_iff.mp hbuild
      rw [takenCalls_call, hes.length_eq,
        Expr.applications_of_not_isLiteral (Registry.isLiteral_of_build_eq_ok hbuild),
        (Operation.builds_of_build_eq_ok hD).arguments, Registry.taken_eq_take hget]
      have htaken := List.forall₂_take (r.takes op es.length) hes
      have hboth := (List.forall₂_and_left _ _).mpr
        ⟨fun d hd => @ih d (List.mem_of_mem_take hd), htaken⟩
      exact List.rel_append (List.rel_flatMap hboth fun d e h => h.1 h.2) (.cons h .nil)

theorem takenCalls_eq_calls
    (h : ∀ op ds, call op ds ∈ d.calls → ds.length ≤ r.takes op ds.length) : d.takenCalls r = d.calls := by
  induction d using Description.induction with
  | text | number | field => rw [takenCalls, calls]
  | call op ds ih =>
      have harguments : ds.flatMap (takenCalls r) = ds.flatMap calls :=
        List.flatMap_congr fun d hd => ih d hd fun op' ds' hmem =>
          h op' ds' (mem_calls_of_argument hd hmem op)
      rw [takenCalls_call, List.take_of_length_le (h op ds (call_mem_calls op ds)), harguments,
        calls_call]

/-- What a call has made of the expressions of its arguments: one expression with those that the
operation takes. They are its arguments as they are, except that the branches of a `switch` are its
cases and the last text of an array join is its separator. -/
structure Makes (r : Registry) (op : String) (es : List Expr) (e : Expr) : Prop where
  build : r.build op es = .ok e
  arguments : e.arguments = es.take (r.takes op es.length)
  branches : ∀ pattern branches, e = .switch pattern branches → es = pattern :: branches.map .branch
  separator : ∀ parts separator, e = .arrayJoin parts separator → es = parts ++ [.text separator]

theorem makes_of_build (h : r.build op es = .ok e) : Makes r op es e := by
  obtain ⟨d, hget, -, hbuild⟩ := Registry.build_eq_ok_iff.mp h
  have hbuilds := Operation.builds_of_build_eq_ok hbuild
  have harguments := hbuilds.arguments
  have hoperation := hbuilds.operation
  refine ⟨h, harguments.trans (Registry.taken_eq_take hget es), ?_, ?_⟩
  -- Both operations take all arguments, so what they took is what there was.
  all_goals
    rintro _ _ rfl
    rw [← hoperation] at harguments
    exact harguments.symm

/-- Building visits the calls of a description in post-order, the arguments of a call from left to right
and then the call. It succeeds if all of them build, and else fails with the error of the first one that
does not, so an error in an argument comes before those of the calls around it and of later arguments.
An expression that is built consists of one application for each call, in the same order, but for the
calls in arguments that are left; none is where no call has more arguments than its operation takes. -/
theorem build_visits_calls_in_post_order (r : Registry) (d : Description) :
    ((∃ e, d.build r = .ok e) ↔ ∀ c ∈ d.calls, ∃! e, Built r c e) ∧
    (∀ err, d.build r = .error err ↔ FirstFailure r d.calls err) ∧
    (∀ op before a after err, d = call op (before ++ a :: after) →
      (∀ b ∈ before, ∃ e, b.build r = .ok e) → a.build r = .error err → d.build r = .error err) ∧
    ∀ e, d.build r = .ok e →
      (∀ op ds, call op ds ∈ d.calls → ∃ es f, List.Forall₂ (Built r) ds es ∧ Makes r op es f) ∧
      List.Forall₂ (Built r) (d.takenCalls r) e.applications ∧
      ((∀ op ds, call op ds ∈ d.calls → ds.length ≤ r.takes op ds.length) →
        d.takenCalls r = d.calls) := by
  refine ⟨?_, fun err => build_eq_error_iff, ?_, fun e he => ?_⟩
  · rw [exists_congr fun e => build_eq_ok_iff, exists_built_iff]
    exact forall₂_congr fun c _ => ⟨fun ⟨e, he⟩ => ⟨e, he, fun _ h => h.unique he⟩, ExistsUnique.exists⟩
  · rintro op before a after err rfl hbefore ha
    exact build_eq_error_of_argument op hbefore ha
  · have hbuilt := build_eq_ok_iff.mp he
    refine ⟨fun op ds hmem => ?_, hbuilt.forall₂_applications, takenCalls_eq_calls⟩
    obtain ⟨f, hf⟩ := exists_built_iff.mp ⟨e, hbuilt⟩ _ hmem
    obtain ⟨es, hes, hbuild⟩ := built_call_iff.mp hf
    exact ⟨es, f, hes, makes_of_build hbuild⟩

/-- A call in an argument that is left is not in the expression that is built. -/
theorem left_argument_contributes_nothing :
    let r := Registry.standard.register ⟨"LEN", .between 1 2, .unary .len⟩
    let d := call "LEN" [.text "a", call "BLANK" []]
    let e := Expr.unary .len (.text "a")
    d.build r = .ok e ∧ d.calls = [call "BLANK" [], d] ∧ e.applications = [e] ∧
      ¬ List.Forall₂ (Built r) d.calls e.applications := by
  intro r d e
  have happlications : e.applications = [e] := by
    rw [Expr.applications_of_not_isLiteral rfl]
    show [Expr.text "a"].flatMap Expr.applications ++ [e] = [e]
    rw [List.flatMap_singleton, Expr.applications_of_isLiteral rfl, List.nil_append]
  refine ⟨rfl, rfl, happlications, fun h => ?_⟩
  have hlength := h.length_eq
  rw [happlications] at hlength
  cases hlength

end Description
end SheetFormula

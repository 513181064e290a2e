import SheetFormula.Proofs.Reduction.Entries
import SheetFormula.Proofs.Reduction.Formula

/-! Compilation as a run over the entries of an expression. A run visits one entry after another and
ends at the first one with a fault; the text is known beforehand, and the run only decides whether it
is returned. So everything about levels, errors and events is a statement about lists. -/

namespace SheetFormula

open Traced

namespace Entry

/-- What a run does at an entry before it looks at the subject: the limit may end it there, and an
expression is reported. -/
def enter (limit : Nat) (x : Entry) : Traced Unit :=
  if limit < x.level then do
    emit (.tooDeep limit)
    fail (.tooDeep limit)
  else match x.subject with
    | .expr e => emit (.visited e.operation x.level)
    | .branch _ => ok ()

def visit (limit : Nat) (x : Entry) : Traced Unit := do
  x.enter limit
  match x.subject.ownFault? with
  | some e => fail e
  | none => ok ()

def replay (limit : Nat) : List Entry → Traced Unit
  | [] => ok ()
  | x :: xs => do
    x.visit limit
    replay limit xs

@[simp] theorem replay_nil (limit : Nat) : replay limit [] = ok () := rfl

@[simp] theorem replay_cons (limit : Nat) (x : Entry) (xs : List Entry) :
    replay limit (x :: xs) = x.visit limit >>= fun _ => replay limit xs := rfl

@[simp] theorem replay_append (limit : Nat) (xs ys : List Entry) :
    replay limit (xs ++ ys) = replay limit xs >>= fun _ => replay limit ys := by
  induction xs with
  | nil => rfl
  | cons x xs ih => rw [List.cons_append, replay_cons, replay_cons, ih, bind_assoc]

end Entry

open Entry

theorem Traced.nested_visited {α : Type} (limit level : Nat) (e : Expr) (body : Nat → Traced α) :
    (nested limit level fun level => do
      emit (.visited e.operation level)
      body level) =
      Entry.enter limit ⟨level + 1, .expr e⟩ >>= fun _ => body (level + 1) := by
  rw [nested, enter]
  by_cases h : limit ≤ level
  · rw [if_pos h, if_pos (Nat.lt_succ_of_le h)]
    rfl
  · rw [if_neg h, if_neg (Nat.not_lt.mpr (Nat.lt_of_not_le h))]

theorem Traced.nested_branch {α : Type} (limit level : Nat) (b : Branch) (body : Nat → Traced α) :
    nested limit level body =
      Entry.visit limit ⟨level + 1, .branch b⟩ >>= fun _ => body (level + 1) := by
  rw [nested, visit, enter]
  by_cases h : limit ≤ level
  · rw [if_pos h, if_pos (Nat.lt_succ_of_le h)]
    rfl
  · rw [if_neg h, if_neg (Nat.not_lt.mpr (Nat.lt_of_not_le h))]
    rfl

section Reduction

attribute [local simp] visit nonEmpty Subject.ownFault? Expr.ownFault? Subject.subjects
  Expr.subjects Branch.subjects Expr.children Expr.formula Branch.formula

mutual

/-- The reduction of an expression is the run over its entries. -/
theorem Expr.reduce_eq_replay (limit level : Nat) : (e : Expr) →
    e.reduce limit level =
      replay limit ((Subject.expr e).entries (level + 1)) >>= fun _ => ok e.formula
  | .text _ | .constant _ => by
    rw [Expr.reduce, nested_visited, Subject.entries_eq]
    simp
  | .number value => by
    rw [Expr.reduce, nested_visited, Subject.entries_eq]
    by_cases h : value.isFinite <;> simp [h]
  | .field name => by
    rw [Expr.reduce, nested_visited, Subject.entries_eq]
    by_cases h : name.isEmpty = true <;> simp [h, -String.isEmpty_iff]
  -- An empty list is a fault of the expression itself, and nothing is below it.
  | .join es | .concatenate es | .arrayJoin es _ | .logical _ es => by
    rw [Expr.reduce, nested_visited, Subject.entries_eq]
    cases es <;> simp [Expr.reduceAll_eq_replay limit (level + 1)]
  | .arrayJoinOf _ _ | .unary _ _ | .count _ _ _ | .operator _ _ _ | .mid _ _ _
  | .conditional _ _ _ | .replace _ _ _ _ => by
    rw [Expr.reduce, nested_visited, Subject.entries_eq]
    simp [Expr.reduce_eq_replay limit (level + 1)]
  | .locate _ _ _ _ | .substitute _ _ _ _ => by
    rw [Expr.reduce, nested_visited, Subject.entries_eq]
    simp [Expr.reduce_eq_replay limit (level + 1), Expr.reduceOption_eq_replay limit (level + 1)]
  | .branch _ => by
    rw [Expr.reduce, nested_visited, Subject.entries_eq]
    simp [Branch.reduce_eq_replay limit (level + 1)]
  | .switch _ bs => by
    rw [Expr.reduce, nested_visited, Subject.entries_eq]
    cases bs <;>
      simp [Expr.reduce_eq_replay limit (level + 1), Expr.reduceBranches_eq_replay limit (level + 1)]

/-- The reduction of a branch is the run over what stands below it. -/
theorem Branch.reduce_eq_replay (limit level : Nat) : (b : Branch) →
    b.reduce limit level =
      replay limit (b.subjects.flatMap (Subject.entries (level + 1))) >>= fun _ => ok b.formula
  | .when _ _ | .otherwise _ => by
    rw [Branch.reduce]
    simp [Expr.reduce_eq_replay limit level]

theorem Expr.reduceAll_eq_replay (limit level : Nat) : (es : List Expr) →
    Expr.reduceAll limit level es =
      replay limit ((es.map .expr).flatMap (Subject.entries (level + 1))) >>= fun _ =>
        ok (es.map Expr.formula)
  | [] => rfl
  | e :: es => by
    rw [Expr.reduceAll, Expr.reduce_eq_replay limit level e, Expr.reduceAll_eq_replay limit level es]
    simp

theorem Expr.reduceOption_eq_replay (limit level : Nat) : (e? : Option Expr) →
    Expr.reduceOption limit level e? =
      replay limit ((e?.toList.map .expr).flatMap (Subject.entries (level + 1))) >>= fun _ =>
        ok (e?.map Expr.formula)
  | none => rfl
  | some e => by
    rw [Expr.reduceOption, Expr.reduce_eq_replay limit level e]
    simp

theorem Expr.reduceBranches_eq_replay (limit level : Nat) : (bs : List Branch) →
    Expr.reduceBranches limit level bs =
      replay limit ((bs.map .branch).flatMap (Subject.entries (level + 1))) >>= fun _ =>
        ok (bs.map Branch.formula)
  | [] => rfl
  | b :: bs => by
    rw [Expr.reduceBranches, nested_branch limit level b, Branch.reduce_eq_replay limit (level + 1) b,
      Expr.reduceBranches_eq_replay limit level bs, List.map_cons, List.flatMap_cons,
      Subject.entries_eq (level + 1) (.branch b)]
    simp

end

end Reduction

/-! ### The result of a run -/

namespace Entry

theorem result_enter_of_le {limit : Nat} {x : Entry} (h : x.level ≤ limit) :
    (x.enter limit).result = .ok () := by
  rw [enter, if_neg (Nat.not_lt.mpr h)]
  cases x.subject <;> rfl

theorem result_visit_of_fault {limit : Nat} {x : Entry} {err : CompileError}
    (h : x.fault? limit = some err) : (x.visit limit).result = .error err := by
  rw [visit]
  by_cases hlevel : limit < x.level
  · rw [fault?, if_pos hlevel] at h
    cases h
    rw [enter, if_pos hlevel]
    rfl
  · rw [fault?, if_neg hlevel] at h
    rw [result_bind_of_ok _ (result_enter_of_le (Nat.not_lt.mp hlevel)), h]
    rfl

theorem result_visit_of_faultless {limit : Nat} {x : Entry} (h : x.fault? limit = none) :
    (x.visit limit).result = .ok () := by
  obtain ⟨hlevel, hown⟩ := fault?_eq_none.mp h
  rw [visit, result_bind_of_ok _ (result_enter_of_le hlevel), hown]
  rfl

/-- A run ends with the first fault on its way. -/
theorem result_replay (limit : Nat) (xs : List Entry) :
    (replay limit xs).result =
      match xs.findSome? (fault? limit) with
      | some err => .error err
      | none => .ok () := by
  induction xs with
  | nil => rfl
  | cons x xs ih =>
      rw [replay_cons, List.findSome?_cons]
      cases h : x.fault? limit with
      | some err => exact result_bind_of_error _ (result_visit_of_fault h)
      | none => rw [result_bind_of_ok _ (result_visit_of_faultless h), ih]

end Entry

namespace Expr

/-- The first fault of an expression decides whether it compiles; where there is none, it compiles to
its formula text. -/
theorem compile_eq (e : Expr) (limit : Nat) :
    e.compile limit =
      match ((Subject.expr e).entries 1).findSome? (fault? limit) with
      | some err => .error err
      | none => .ok e.formula := by
  have hresult := result_replay limit ((Subject.expr e).entries 1)
  rw [compile, compileTraced, reduce_eq_replay, result_bind_of_ok _ (result_emit _), bind_assoc]
  cases h : ((Subject.expr e).entries 1).findSome? (fault? limit) with
  | some err =>
      rw [h] at hresult
      exact result_bind_of_error _ hresult
  | none =>
      rw [h] at hresult
      rw [result_bind_of_ok _ hresult]
      rfl

theorem compile_eq_ok_iff {e : Expr} {limit : Nat} {formula : String} :
    e.compile limit = .ok formula ↔
      (∀ x ∈ (Subject.expr e).entries 1, x.fault? limit = none) ∧ formula = e.formula := by
  rw [compile_eq, ← List.findSome?_eq_none_iff]
  cases ((Subject.expr e).entries 1).findSome? (fault? limit) with
  | some err => simp
  | none => simp [eq_comm]

theorem compile_eq_error_iff {e : Expr} {limit : Nat} {err : CompileError} :
    e.compile limit = .error err ↔
      ((Subject.expr e).entries 1).findSome? (fault? limit) = some err := by
  rw [compile_eq]
  cases ((Subject.expr e).entries 1).findSome? (fault? limit) <;> simp

end Expr
end SheetFormula

import SheetFormula.Proofs.Reduction.Replay

/-! Which error a compilation reports. The entries of an expression are checked in the order of
evaluation, the level of an entry before its subject, and the first one with a fault decides. The main
statement gives success and every error by conditions on the list of entries alone, and the wording of
an error by the operation it is about. -/

namespace SheetFormula

/-- The wording of what is wrong with an expression itself, where something is. -/
def Expr.complaint : Expr → String
  | number value => "Number literal is not finite: " ++ value.text
  | field _ => "Missing value: field reference has no name"
  | switch _ _ => "Missing value: SWITCH has no cases"
  | e => "Missing value: " ++ e.operation.name ++ " has no arguments"

def Subject.complaint : Subject → String
  | expr e => e.complaint
  | branch _ => ""

theorem Expr.message_of_ownFault? {e : Expr} {err : CompileError} (h : e.ownFault? = some err) :
    err.message = e.complaint := by
  cases e with
  | number value =>
      rw [ownFault?] at h
      split at h <;> cases h
      rfl
  | field name =>
      rw [ownFault?] at h
      split at h <;> cases h
      rfl
  | join es | concatenate es | arrayJoin es _ | logical _ es | switch _ es =>
      cases es <;> cases h
      rfl
  | _ => cases h

theorem Subject.message_of_ownFault? {s : Subject} {err : CompileError}
    (h : s.ownFault? = some err) : err.message = s.complaint := by
  cases s with
  | expr e => exact Expr.message_of_ownFault? h
  | branch b => cases h

/-- A compilation succeeds if and only if no entry is too deep or has a fault of its own. It reports
an error if and only if that is the fault of an entry before which there is none with a fault. A fault
of a subject itself is worded after its operation. -/
theorem Expr.compile_reports_first_fault (e : Expr) (limit : Nat) :
    ((∃ formula, e.compile limit = .ok formula) ↔
      ∀ x ∈ (Subject.expr e).entries 1, x.level ≤ limit ∧ x.subject.ownFault? = none) ∧
    (∀ err, e.compile limit = .error err ↔
      ∃ before x after, (Subject.expr e).entries 1 = before ++ x :: after ∧
        (∀ y ∈ before, y.level ≤ limit ∧ y.subject.ownFault? = none) ∧
        (limit < x.level ∧ err = .tooDeep limit ∨
          x.level ≤ limit ∧ x.subject.ownFault? = some err ∧ err.message = x.subject.complaint)) := by
  refine ⟨?_, fun err => ?_⟩
  · constructor
    · rintro ⟨formula, h⟩ x hx
      exact Entry.fault?_eq_none.mp ((compile_eq_ok_iff.mp h).1 x hx)
    · intro h
      refine ⟨e.formula, compile_eq_ok_iff.mpr ⟨fun x hx => ?_, rfl⟩⟩
      exact Entry.fault?_eq_none.mpr (h x hx)
  · rw [compile_eq_error_iff, List.findSome?_eq_some_iff]
    constructor
    · rintro ⟨before, x, after, hsplit, hx, hbefore⟩
      refine ⟨before, x, after, hsplit, fun y hy => Entry.fault?_eq_none.mp (hbefore y hy), ?_⟩
      rcases Entry.fault?_eq_some.mp hx with hdeep | ⟨hlevel, hown⟩
      · exact Or.inl hdeep
      · exact Or.inr ⟨hlevel, hown, Subject.message_of_ownFault? hown⟩
    · rintro ⟨before, x, after, hsplit, hbefore, hx⟩
      refine ⟨before, x, after, hsplit, ?_, fun y hy => Entry.fault?_eq_none.mpr (hbefore y hy)⟩
      rcases hx with hdeep | ⟨hlevel, hown, -⟩
      · exact Entry.fault?_eq_some.mpr (Or.inl hdeep)
      · exact Entry.fault?_eq_some.mpr (Or.inr ⟨hlevel, hown⟩)

end SheetFormula

import Mathlib.Data.List.Forall2
import SheetFormula.Expr
import SheetFormula.Proofs.Unambiguity.Clean

/-! Equality of expressions from equality of their children. The operation of an expression and its
children determine it where it is clean; the one case in question is a `switch`, whose branches are
two children or one, and there only the last branch can be one. -/

namespace SheetFormula

/-- Equality of expressions, numbers compared as numbers. -/
def Expr.Same (a b : Expr) : Prop := a.numEq b = true

namespace Expr

theorem allNumEq_of_forall₂ {as bs : List Expr} (h : List.Forall₂ Same as bs) :
    allNumEq as bs = true := by
  induction h with
  | nil => rw [allNumEq]
  | cons hab _ ih => 
      rw [allNumEq, ih]
      simpa [Same] using hab

theorem optionNumEq_of_forall₂ {a? b? : Option Expr} (h : List.Forall₂ Same a?.toList b?.toList) :
    optionNumEq a? b? = true := by
  cases a? with
  | none =>
      cases b? with
      | none => rw [optionNumEq]
      | some b => cases h
  | some a =>
      cases b? with
      | none => cases h
      | some b =>
          rw [optionNumEq]
          exact (List.forall₂_cons.mp h).1

theorem eq_nil_of_otherwise {value : Expr} {bs : List Branch}
    (h : ∀ b ∈ (Branch.otherwise value :: bs).dropLast, b.isConditional = true) : bs = [] := by
  cases bs with
  | nil => rfl
  | cons b bs => cases h (.otherwise value) List.mem_cons_self

theorem dropLast_of_cons {b : Branch} {bs : List Branch}
    (h : ∀ x ∈ (b :: bs).dropLast, x.isConditional = true) :
    ∀ x ∈ bs.dropLast, x.isConditional = true := by
  intro x hx
  cases bs with
  | nil => cases hx
  | cons c cs => exact h x (List.mem_cons_of_mem _ hx)

theorem branchesNumEq_of_forall₂ {as bs : List Branch}
    (has : ∀ b ∈ as.dropLast, b.isConditional = true)
    (hbs : ∀ b ∈ bs.dropLast, b.isConditional = true)
    (h : List.Forall₂ Same (as.flatMap Branch.children) (bs.flatMap Branch.children)) :
    branchesNumEq as bs = true := by
  induction as generalizing bs with
  | nil =>
      cases bs with
      | nil => rw [branchesNumEq]
      | cons b bs => cases b <;> cases h
  | cons a as ih =>
      cases bs with
      | nil => cases a <;> cases h
      | cons b bs =>
          have htail := ih (dropLast_of_cons has) (dropLast_of_cons hbs)
          cases a with
          | when condition value =>
              cases b with
              | when condition' value' =>
                  simp only [List.flatMap_cons, Branch.children, List.cons_append, List.nil_append,
                    List.forall₂_cons] at h
                  rw [branchesNumEq, htail h.2.2, Branch.numEq]
                  simpa [Same] using ⟨h.1, h.2.1⟩
              | otherwise value' =>
                  cases eq_nil_of_otherwise hbs
                  rcases h with _ | ⟨_, h⟩
                  cases h
          | otherwise value =>
              cases eq_nil_of_otherwise has
              cases b with
              | when condition' value' =>
                  rcases h with _ | ⟨_, h⟩
                  cases h
              | otherwise value' =>
                  cases eq_nil_of_otherwise hbs
                  rw [branchesNumEq, branchesNumEq, Branch.numEq, Bool.and_true]
                  exact (List.forall₂_cons.mp h).1

theorem isCall_of_operation_eq {a b : Expr} (hop : a.operation = b.operation)
    (h : a.isCall = true) : b.isCall = true := by
  cases b with
  | text | number | field | join | arrayJoin | arrayJoinOf | branch | operator =>
      cases a <;> cases hop <;> cases h
  | _ => rfl

theorem same_of_call {a b : Expr} (hcall : a.isCall = true) (ha : a.IsClean) (hb : b.IsClean)
    (hop : a.operation = b.operation) (h : List.Forall₂ Same a.children b.children) : a.Same b := by
  cases a with
  | text | number | field | join | arrayJoin | arrayJoinOf | branch | operator => cases hcall
  | constant c =>
      cases b <;> cases hop
      simp [Same, numEq]
  | concatenate as =>
      cases b <;> cases hop
      rw [Same, numEq]
      exact allNumEq_of_forall₂ h
  | logical f as =>
      cases b <;> cases hop
      simpa [Same, numEq, children] using allNumEq_of_forall₂ h
  | switch pattern as =>
      cases b <;> cases hop
      obtain ⟨hpattern, hbranches⟩ := List.forall₂_cons.mp h
      rw [Same, numEq, hpattern, branchesNumEq_of_forall₂ ha hb hbranches]
      rfl
  | locate f needle haystack start =>
      cases b <;> cases hop
      simp only [children, List.forall₂_cons] at h
      simpa [Same, numEq, and_assoc] using ⟨h.1, h.2.1, optionNumEq_of_forall₂ h.2.2⟩
  | substitute string old new index =>
      cases b <;> cases hop
      simp only [children, List.forall₂_cons] at h
      simpa [Same, numEq, and_assoc] using ⟨h.1, h.2.1, h.2.2.1, optionNumEq_of_forall₂ h.2.2.2⟩
  | _ =>
      cases b <;> cases hop
      simpa [Same, numEq, children, and_assoc] using h

end Expr
end SheetFormula

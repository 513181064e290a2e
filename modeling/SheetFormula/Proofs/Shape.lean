import SheetFormula.Expr

/-! The shape of expressions, as the proofs about them see it: which expressions are literals and which are
joins, that children are smaller than their parents, the expressions that one is put together from, and
properties that hold throughout an expression. -/

namespace SheetFormula

/-- Whether an expression is a text, a number or a field. -/
def Expr.isLiteral : Expr → Bool
  | text _ | number _ | field _ => true
  | _ => false

def Expr.isJoin : Expr → Bool
  | join _ => true
  | _ => false

/-- The parts of a join, or the one part that another expression is. -/
def Expr.parts : Expr → List Expr
  | join parts => parts
  | e => [e]

theorem Expr.parts_of_not_isJoin {e : Expr} (h : e.isJoin = false) : e.parts = [e] := by
  cases e <;> first | rfl | cases h

theorem Branch.sizeOf_lt_of_mem_children {b : Branch} {c : Expr} (h : c ∈ b.children) :
    sizeOf c < sizeOf b := by
  cases b <;> simp [children] at h <;> simp <;> grind

theorem Expr.sizeOf_lt_of_mem_children {e c : Expr} (h : c ∈ e.children) : sizeOf c < sizeOf e := by
  cases e with
  | text | number | field | constant => cases h
  | join parts | concatenate parts | arrayJoin parts _ | logical _ parts =>
      have hc : c ∈ parts := h
      have := List.sizeOf_lt_of_mem hc
      simp
      omega
  | switch pattern branches =>
      rcases List.mem_cons.mp h with rfl | h
      · simp
        omega
      · obtain ⟨b, hb, hc⟩ := List.mem_flatMap.mp h
        have hlt := Branch.sizeOf_lt_of_mem_children hc
        have := List.sizeOf_lt_of_mem hb
        simp
        omega
  | branch b =>
      have := Branch.sizeOf_lt_of_mem_children h
      simp
      omega
  | _ =>
      simp only [children] at h
      simp
      grind

/-- The expressions that an expression is put together from, itself first: one for each place in it. -/
def Expr.occurrences (e : Expr) : List Expr :=
  e :: e.children.attach.flatMap fun c => c.1.occurrences
termination_by sizeOf e
decreasing_by exact sizeOf_lt_of_mem_children c.2

theorem Expr.occurrences_eq (e : Expr) : e.occurrences = e :: e.children.flatMap occurrences := by
  rw [occurrences, List.flatMap_subtype fun _ _ => rfl, List.unattach_attach]

/-- What holds of an expression and is passed on to children holds of all that is below it. -/
theorem Expr.of_mem_occurrences {P : Expr → Prop} (hchild : ∀ e, P e → ∀ c ∈ e.children, P c) {e c : Expr}
    (h : P e) (hc : c ∈ e.occurrences) : P c := by
  induction e using Expr.induction with
  | step e ih =>
      rw [occurrences_eq, List.mem_cons, List.mem_flatMap] at hc
      rcases hc with rfl | ⟨d, hd, hc⟩
      · exact h
      · exact ih d hd (hchild e h d hd) hc

/-- A property of an expression and of every expression below it. -/
inductive Expr.Everywhere (P : Expr → Prop) : Expr → Prop where
  | intro {e : Expr} (here : P e) (children : ∀ c ∈ e.children, Everywhere P c) : Everywhere P e

namespace Expr.Everywhere

variable {P : Expr → Prop} {e c : Expr}

theorem here (h : e.Everywhere P) : P e := by
  cases h with
  | intro here _ => exact here

theorem of_mem_children (h : e.Everywhere P) (hc : c ∈ e.children) : c.Everywhere P := by
  cases h with
  | intro _ children => exact children c hc

theorem iff_children : e.Everywhere P ↔ P e ∧ ∀ c ∈ e.children, c.Everywhere P :=
  ⟨fun h => ⟨h.here, fun _ => h.of_mem_children⟩, fun h => .intro h.1 h.2⟩

theorem iff_occurrences : e.Everywhere P ↔ ∀ c ∈ e.occurrences, P c := by
  induction e using Expr.induction with
  | step e ih =>
      rw [iff_children, Expr.occurrences_eq, List.forall_mem_cons, List.forall_mem_flatMap]
      exact and_congr_right fun _ => forall₂_congr ih

end Expr.Everywhere
end SheetFormula

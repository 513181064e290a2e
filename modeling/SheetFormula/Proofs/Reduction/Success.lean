import SheetFormula.Proofs.Reduction.Events
import SheetFormula.Proofs.Reduction.Height

/-! Which expressions compile, told from their shape: those that are no higher than the limit and have no
fault of their own anywhere (`Expr.compile_eq_ok_iff_height`). The height of an expression comes from
the heights of its children and from how far below it they stand, which its operation and the place
of a child tell (`Expr.height_le_iff_children`). -/

namespace SheetFormula

/-- How far below an expression with an operation its child at a place stands. The parts of a branch of a
`switch` stand below the branch, and the branch below the `switch`. -/
def Operation.childDepth : Operation → Nat → Nat
  | switch, _ + 1 => 2
  | _, _ => 1

namespace Expr

variable {e c : Expr} {n : Nat}

/-- Whether neither an expression nor anything below it has a fault of its own. -/
def Faultless (e : Expr) : Prop := e.Everywhere fun c => c.ownFault? = none

theorem compile_eq_ok_iff_height {limit : Nat} {formula : String} :
    e.compile limit = .ok formula ↔ e.height ≤ limit ∧ e.Faultless ∧ formula = e.formula := by
  have hown : (∀ x ∈ (Subject.expr e).entries 1, x.subject.ownFault? = none) ↔ e.Faultless := by
    rw [Faultless, Everywhere.iff_occurrences]
    constructor
    · intro h c hc
      obtain ⟨x, hx, hsubject⟩ := mem_occurrences_iff.mp hc
      have hx' := h x hx
      rwa [hsubject] at hx'
    · intro h x hx
      cases hsubject : x.subject with
      | expr c => exact h c (mem_occurrences_iff.mpr ⟨x, hx, hsubject⟩)
      | branch b => rfl
  rw [compile_eq_ok_iff, height_le_iff, ← hown, ← and_assoc]
  refine and_congr_left fun _ => ?_
  rw [← forall₂_and]
  exact forall₂_congr fun x _ => Entry.fault?_eq_none

/-! ### The height from the children -/

theorem height_pos (e : Expr) : 0 < e.height := (Subject.expr e).height_pos

theorem height_branch_le_iff {b : Branch} :
    (Subject.branch b).height ≤ n ↔ ∀ c ∈ b.children, c.height + 1 ≤ n := by
  cases n with
  | zero =>
      have hpos := (Subject.branch b).height_pos
      refine iff_of_false (by omega) fun h => ?_
      cases b with
      | when condition value => exact absurd (h value (by simp [Branch.children])) (by omega)
      | otherwise value => exact absurd (h value (by simp [Branch.children])) (by omega)
  | succ n =>
      rw [Subject.height_le_succ_iff]
      constructor
      · intro h c hc
        exact Nat.succ_le_succ (h _ (Branch.subject_mem_subjects hc))
      · intro h s hs
        obtain ⟨c, hc, rfl⟩ := Branch.mem_subjects.mp hs
        exact Nat.le_of_succ_le_succ (h c hc)

/-- The children of an expression stand one level below it, those of a `switch` apart. -/
theorem height_le_succ_iff_children (h : e.operation ≠ .switch) :
    e.height ≤ n + 1 ↔ ∀ c ∈ e.children, c.height ≤ n := by
  rw [height, Subject.height_le_succ_iff]
  cases e with
  | switch => exact absurd rfl h
  | branch b =>
      constructor
      · exact fun h c hc => h _ (Branch.subject_mem_subjects hc)
      · intro h s hs
        obtain ⟨c, hc, rfl⟩ := Branch.mem_subjects.mp hs
        exact h c hc
  | _ => exact List.forall_mem_map

theorem height_switch_le_succ_iff {pattern : Expr} {branches : List Branch} :
    (switch pattern branches).height ≤ n + 1 ↔
      pattern.height ≤ n ∧ ∀ c ∈ branches.flatMap Branch.children, c.height + 1 ≤ n := by
  rw [height, Subject.height_le_succ_iff]
  show (∀ s ∈ Subject.expr pattern :: branches.map Subject.branch, s.height ≤ n) ↔ _
  rw [List.forall_mem_cons, List.forall_mem_map, List.forall_mem_flatMap]
  exact and_congr_right fun _ => forall₂_congr fun b _ => height_branch_le_iff

theorem height_le_iff_children :
    e.height ≤ n ↔
      0 < n ∧ ∀ i c, e.children[i]? = some c → c.height + e.operation.childDepth i ≤ n := by
  cases n with
  | zero => exact iff_of_false (by have := e.height_pos; omega) fun h => absurd h.1 (Nat.lt_irrefl 0)
  | succ n =>
      rw [and_iff_right n.succ_pos]
      by_cases hop : e.operation = .switch
      · cases e with
        | switch pattern branches =>
            rw [height_switch_le_succ_iff, children]
            constructor
            · rintro ⟨hpattern, hparts⟩ (_ | i) c hc
              · cases hc
                exact Nat.succ_le_succ hpattern
              · exact Nat.succ_le_succ (hparts c (List.mem_of_getElem? hc))
            · intro h
              refine ⟨Nat.le_of_succ_le_succ (h 0 pattern rfl), fun c hc => ?_⟩
              obtain ⟨i, hi⟩ := List.mem_iff_getElem?.mp hc
              exact Nat.le_of_succ_le_succ (h (i + 1) c hi)
        | _ => cases hop
      · have hdepth (i : Nat) : e.operation.childDepth i = 1 := by
          rw [Operation.childDepth]
          exact fun _ h => absurd h hop
        rw [height_le_succ_iff_children hop]
        constructor
        · intro h i c hc
          rw [hdepth]
          exact Nat.succ_le_succ (h c (List.mem_of_getElem? hc))
        · intro h c hc
          obtain ⟨i, hi⟩ := List.mem_iff_getElem?.mp hc
          have hle := h i c hi
          rw [hdepth] at hle
          exact Nat.le_of_succ_le_succ hle

theorem height_lt_of_mem_children (h : c ∈ e.children) : c.height < e.height := by
  obtain ⟨i, hi⟩ := List.mem_iff_getElem?.mp h
  have hle := (height_le_iff_children.mp (Nat.le_refl e.height)).2 i c hi
  have hpos : 0 < e.operation.childDepth i := by
    unfold Operation.childDepth
    split <;> decide
  omega

end Expr
end SheetFormula

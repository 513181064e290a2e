import Mathlib.Data.List.MinMax
import Mathlib.Order.Nat
import SheetFormula.Proofs.Reduction.Entries

/-! The height of an expression: how many levels of nesting its compilation takes. A limit admits every
entry of an expression if and only if the height is within it. -/

namespace SheetFormula
namespace Subject

/-- The level of a subject itself and the levels below it. -/
def height (s : Subject) : Nat := (s.subjects.attach.map fun c => c.1.height).foldr max 0 + 1
termination_by sizeOf s
decreasing_by exact sizeOf_lt_of_mem_subjects c.2

theorem height_eq (s : Subject) : s.height = (s.subjects.map height).foldr max 0 + 1 := by
  rw [height, List.attach_map_val]

theorem height_le_succ_iff {s : Subject} {n : Nat} :
    s.height ≤ n + 1 ↔ ∀ c ∈ s.subjects, c.height ≤ n := by
  rw [height_eq, Nat.add_le_add_iff_right]
  constructor
  · intro h c hc
    exact (List.le_max_of_le' 0 (List.mem_map_of_mem hc) (Nat.le_refl _)).trans h
  · intro h
    exact List.max_le_of_forall_le _ n (List.forall_mem_map.mpr h)

theorem height_pos (s : Subject) : 0 < s.height := by
  rw [height_eq]
  exact Nat.succ_pos _

theorem add_height_le_succ_iff {s : Subject} {level limit : Nat} :
    level + s.height ≤ limit + 1 ↔ ∀ x ∈ s.entries level, x.level ≤ limit := by
  induction s using Subject.induction generalizing level with
  | step s ih =>
      rw [entries_eq, List.forall_mem_cons, List.forall_mem_flatMap]
      by_cases hlevel : level ≤ limit
      · have hheight : level + s.height ≤ limit + 1 ↔ s.height ≤ limit - level + 1 := by omega
        rw [hheight, height_le_succ_iff, and_iff_right hlevel]
        refine forall₂_congr fun c hc => ?_
        rw [← ih c hc]
        omega
      · have hpos := s.height_pos
        exact iff_of_false (by omega) fun h => hlevel h.1

end Subject

/-- The number of levels that an expression takes, one for itself included. -/
def Expr.height (e : Expr) : Nat := (Subject.expr e).height

theorem Expr.height_le_iff {e : Expr} {limit : Nat} :
    e.height ≤ limit ↔ ∀ x ∈ (Subject.expr e).entries 1, x.level ≤ limit := by
  rw [← Subject.add_height_le_succ_iff, height]
  omega

end SheetFormula

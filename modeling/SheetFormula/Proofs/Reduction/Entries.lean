import Mathlib.Data.List.Basic
import SheetFormula.Compile
import SheetFormula.Proofs.Shape

/-! The order in which an expression is compiled, written down as a list. What takes a level of
nesting is a subject: an expression, or a branch of a `switch`. A subject and the level it stands at
are an entry. A subject comes before those below it, and the value of a branch before its condition.
Moving a subject to another level moves all of its entries alike (`Subject.entries_add`), and the
entries of a child are among those of its parent (`Expr.exists_entries_subset`). -/

namespace SheetFormula

/-- What takes a level of nesting. A branch does so only below a `switch`; one that stands by itself
shares the level of its expression. -/
inductive Subject where
  | expr (e : Expr)
  | branch (b : Branch)

structure Entry where
  level : Nat
  subject : Subject

/-- The parts of a branch, in the order of evaluation. -/
def Branch.subjects : Branch → List Subject
  | when condition value => [.expr value, .expr condition]
  | otherwise value => [.expr value]

/-- What stands one level below an expression, in the order of evaluation. -/
def Expr.subjects : Expr → List Subject
  | branch b => b.subjects
  | switch pattern branches => .expr pattern :: branches.map .branch
  | e => e.children.map .expr

/-- What stands one level below a subject, in the order of evaluation. -/
def Subject.subjects : Subject → List Subject
  | expr e => e.subjects
  | branch b => b.subjects

theorem Branch.mem_subjects {b : Branch} {s : Subject} :
    s ∈ b.subjects ↔ ∃ c ∈ b.children, s = .expr c := by
  cases b with
  | when condition value => simp [subjects, children, or_comm]
  | otherwise value => simp [subjects, children]

theorem Subject.sizeOf_lt_of_mem_subjects {s c : Subject} (h : c ∈ s.subjects) :
    sizeOf c < sizeOf s := by
  cases s with
  | branch b =>
      obtain ⟨c, hc, rfl⟩ := Branch.mem_subjects.mp h
      have := Branch.sizeOf_lt_of_mem_children hc
      rw [expr.sizeOf_spec, branch.sizeOf_spec]
      omega
  | expr e =>
      cases e with
      | branch b =>
          obtain ⟨c, hc, rfl⟩ := Branch.mem_subjects.mp h
          have := Branch.sizeOf_lt_of_mem_children hc
          simp
          omega
      | switch pattern branches =>
          rcases List.mem_cons.mp h with rfl | h
          · simp
            omega
          · obtain ⟨b, hb, rfl⟩ := List.mem_map.mp h
            have := List.sizeOf_lt_of_mem hb
            simp
            omega
      | _ =>
          obtain ⟨c, hc, rfl⟩ := List.mem_map.mp h
          have := Expr.sizeOf_lt_of_mem_children hc
          rw [expr.sizeOf_spec, expr.sizeOf_spec]
          omega

namespace Subject

/-- Proves a property of every subject from the same property of those below it. -/
theorem induction {P : Subject → Prop} (step : ∀ s : Subject, (∀ c ∈ s.subjects, P c) → P s)
    (s : Subject) : P s :=
  step s fun c _ => induction step c
termination_by sizeOf s
decreasing_by exact sizeOf_lt_of_mem_subjects ‹_›

/-- The entries of a subject that stands at `level`, itself first. -/
def entries (level : Nat) (s : Subject) : List Entry :=
  ⟨level, s⟩ :: s.subjects.attach.flatMap fun c => c.1.entries (level + 1)
termination_by sizeOf s
decreasing_by exact sizeOf_lt_of_mem_subjects c.2

theorem entries_eq (level : Nat) (s : Subject) :
    s.entries level = ⟨level, s⟩ :: s.subjects.flatMap (entries (level + 1)) := by
  rw [entries, List.flatMap_subtype fun _ _ => rfl, List.unattach_attach]

end Subject

/-! ### Faults -/

/-- What is wrong with an expression itself, whatever is below it. -/
def Expr.ownFault? : Expr → Option CompileError
  | number value => if value.isFinite then none else some (.notFinite value)
  | field name => if name.isEmpty then some (.missing .fieldName) else none
  | join [] => some (.missing (.arguments .join))
  | concatenate [] => some (.missing (.arguments .concatenate))
  | arrayJoin [] _ => some (.missing (.arguments .arrayJoin))
  | logical f [] => some (.missing (.arguments (.logical f)))
  | switch _ [] => some (.missing .branches)
  | _ => none

/-- What is wrong with a subject itself; with a branch nothing is. -/
def Subject.ownFault? : Subject → Option CompileError
  | expr e => e.ownFault?
  | branch _ => none

namespace Entry

/-- Why a run under the limit ends at an entry, if it does. The level counts before the subject. -/
def fault? (limit : Nat) (x : Entry) : Option CompileError :=
  if limit < x.level then some (.tooDeep limit) else x.subject.ownFault?

/-- The same subject, a number of levels deeper. -/
def lower (depth : Nat) (x : Entry) : Entry := { x with level := x.level + depth }

theorem fault?_eq_none {limit : Nat} {x : Entry} :
    x.fault? limit = none ↔ x.level ≤ limit ∧ x.subject.ownFault? = none := by
  rw [fault?]
  split <;> simp <;> omega

theorem fault?_eq_some {limit : Nat} {x : Entry} {err : CompileError} :
    x.fault? limit = some err ↔
      limit < x.level ∧ err = .tooDeep limit ∨
        x.level ≤ limit ∧ x.subject.ownFault? = some err := by
  rw [fault?]
  by_cases h : limit < x.level
  · rw [if_pos h]
    simp [h, Nat.not_le.mpr h, eq_comm]
  · rw [if_neg h]
    simp [h, Nat.not_lt.mp h]

end Entry

/-! ### Other levels and children -/

theorem Subject.entries_add (level depth : Nat) (s : Subject) :
    s.entries (level + depth) = (s.entries level).map (Entry.lower depth) := by
  induction s using Subject.induction generalizing level with
  | step s ih =>
      have hsubjects : s.subjects.flatMap (entries (level + depth + 1)) =
          (s.subjects.flatMap (entries (level + 1))).map (Entry.lower depth) := by
        rw [List.map_flatMap, Nat.add_right_comm]
        exact List.flatMap_congr fun c hc => ih c hc (level + 1)
      rw [entries_eq, entries_eq level, hsubjects, List.map_cons, Entry.lower]

theorem Subject.entries_subset {s c : Subject} (h : c ∈ s.subjects) (level : Nat) :
    c.entries (level + 1) ⊆ s.entries level := by
  intro x hx
  rw [entries_eq level s]
  exact List.mem_cons_of_mem _ (List.mem_flatMap.mpr ⟨c, h, hx⟩)

theorem Branch.subject_mem_subjects {b : Branch} {c : Expr} (h : c ∈ b.children) :
    .expr c ∈ b.subjects :=
  mem_subjects.mpr ⟨c, h, rfl⟩

/-- A child stands one level below its parent, or two: a part of a branch of a `switch`. -/
theorem Expr.exists_entries_subset {e c : Expr} (h : c ∈ e.children) (level : Nat) :
    ∃ depth, (Subject.expr c).entries (level + depth) ⊆ (Subject.expr e).entries level := by
  cases e with
  | branch b => exact ⟨1, Subject.entries_subset (Branch.subject_mem_subjects h) level⟩
  | switch pattern branches =>
      rcases List.mem_cons.mp h with rfl | h
      · exact ⟨1, Subject.entries_subset List.mem_cons_self level⟩
      · obtain ⟨b, hb, hc⟩ := List.mem_flatMap.mp h
        have hbranch : Subject.branch b ∈ (Subject.expr (.switch pattern branches)).subjects :=
          List.mem_cons_of_mem _ (List.mem_map_of_mem hb)
        have hpart : Subject.expr c ∈ (Subject.branch b).subjects := Branch.subject_mem_subjects hc
        exact ⟨2, List.Subset.trans (Subject.entries_subset hpart (level + 1))
          (Subject.entries_subset hbranch level)⟩
  | _ => exact ⟨1, Subject.entries_subset (List.mem_map_of_mem h) level⟩

end SheetFormula

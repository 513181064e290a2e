import SheetFormula.Proofs.Description.Bijection
import SheetFormula.Proofs.Description.FirstFit
import SheetFormula.Proofs.Json.Nesting
import SheetFormula.Proofs.Reduction.Height

/-! Levels of descriptions. A call is an object with an array in it, so a level of a description takes two
levels of JSON, except for the last one (`Json.within_of_describe?`). An expression has no more levels
than its description: a branch takes one in a `switch` as well as by itself, and a separator, which is
a text of its own in a description, takes none (`Expr.bounded_of_within_describe`). -/

namespace SheetFormula

/-- Descriptions of at most `n` levels, with finite numbers only. -/
inductive Description.Within : Nat → Description → Prop where
  | text {n : Nat} {value : String} : Within (n + 1) (.text value)
  | number {n : Nat} {value : Binary64} (finite : value.isFinite = true) : Within (n + 1) (.number value)
  | field {n : Nat} {name : String} : Within (n + 1) (.field name)
  | call {n : Nat} {op : String} {arguments : List Description}
      (arguments_within : ∀ d ∈ arguments, Within n d) : Within (n + 1) (.call op arguments)

/-- A level of a description takes two levels of JSON, except that the last one takes one. -/
theorem Json.within_of_describe? {n : Nat} {v : Json} {d : Description} (hv : v.Within (2 * n + 1))
    (h : v.describe? = some d) : d.Within (n + 1) := by
  induction n using Nat.strong_induction_on generalizing v d with
  | _ n ih =>
      cases describe?_eq_some_iff.mp h with
      | text | field => constructor
      | number _ hfits =>
          obtain ⟨m, -, hmembers⟩ := hv.members
          exact .number (hmembers _ (mem_of_valuesAt hfits)).isFinite
      | constant => exact .call nofun
      | @call members op items ds _ _ hargs hitems =>
          -- The items are two levels below the object, so there is a level less left for them.
          obtain ⟨m, hm, hmembers⟩ := hv.members
          obtain ⟨k, hk, hwithin⟩ := (hmembers _ (mem_of_valuesAt hargs)).items
          obtain rfl : k = 2 * (n - 1) + 1 := by omega
          obtain hn : n = n - 1 + 1 := by omega
          rw [hn]
          refine .call fun d hd => ?_
          obtain ⟨item, hitem, hfit⟩ := exists_of_forall₂ (List.Forall₂.flip hitems) hd
          exact ih (n - 1) (by omega) (hwithin item hitem) (describe?_eq_some_iff.mpr hfit)

/-! ### Expressions -/

theorem Description.Within.upper {n : Nat} {d : Description} (h : d.Within n) : d.upper.Within n := by
  induction h with
  | text =>
      rw [Description.upper]
      exact .text
  | number finite =>
      rw [Description.upper]
      exact .number finite
  | field =>
      rw [Description.upper]
      exact .field
  | call arguments_within ih =>
      rw [Description.upper]
      exact .call (List.forall_mem_map.mpr ih)

namespace Expr

/-- What holds of an expression and throughout its arguments holds throughout the expression. -/
theorem everywhere_of_arguments {P : Expr → Prop} {e : Expr} (here : P e)
    (h : ∀ a ∈ e.arguments, a.Everywhere P) : e.Everywhere P := by
  refine .intro here fun c hc => ?_
  cases e with
  | arrayJoin parts separator => exact h c (List.mem_append_left _ hc)
  | arrayJoinOf part separator =>
      obtain rfl := List.mem_singleton.mp hc
      exact h c List.mem_cons_self
  | switch pattern branches =>
      rcases List.mem_cons.mp hc with rfl | hc
      · exact h c List.mem_cons_self
      · obtain ⟨b, hb, hc⟩ := List.mem_flatMap.mp hc
        have hbranch : (branch b).Everywhere P := h _ (List.mem_cons_of_mem _ (List.mem_map_of_mem hb))
        exact hbranch.of_mem_children hc
  | _ => exact h c hc

/-- An expression is at most one level higher than its arguments. -/
theorem height_le_succ_of_arguments {e : Expr} {n : Nat} (h : ∀ a ∈ e.arguments, a.height ≤ n) :
    e.height ≤ n + 1 := by
  refine Subject.height_le_succ_iff.mpr fun c hc => ?_
  cases e with
  | branch b =>
      obtain ⟨a, ha, rfl⟩ := Branch.mem_subjects.mp hc
      exact h a ha
  | switch pattern branches =>
      rcases List.mem_cons.mp hc with rfl | hc
      · exact h pattern List.mem_cons_self
      · obtain ⟨b, hb, rfl⟩ := List.mem_map.mp hc
        -- The levels below a branch are the same, whether it is a case or an argument.
        have hbranch : (Subject.branch b).height = (branch b).height := by
          rw [height, Subject.height_eq, Subject.height_eq]
          rfl
        rw [hbranch]
        exact h _ (List.mem_cons_of_mem _ (List.mem_map_of_mem hb))
  | arrayJoin parts separator =>
      obtain ⟨a, ha, rfl⟩ := List.mem_map.mp hc
      exact h a (List.mem_append_left _ ha)
  | arrayJoinOf part separator =>
      obtain rfl := List.mem_singleton.mp hc
      exact h part List.mem_cons_self
  | _ =>
      obtain ⟨a, ha, rfl⟩ := List.mem_map.mp hc
      exact h a ha

/-- Whether an expression, if it is a number, is a finite one. -/
def FitsNumber (e : Expr) : Prop := ∀ value, e = number value → value.isFinite = true

theorem fitsNumber_of_within_describe {n : Nat} {e : Expr} (h : e.describe.Within n) : e.FitsNumber := by
  rintro value rfl
  rw [describe] at h
  cases h with
  | number finite => exact finite

theorem within_describe_arguments {n : Nat} {e : Expr} (h : e.describe.Within n) :
    ∃ m, n = m + 1 ∧ ∀ a ∈ e.arguments, a.describe.Within m := by
  cases hliteral : e.isLiteral with
  | true =>
      cases e with
      | text | number | field =>
          rw [describe] at h
          cases h
          exact ⟨_, rfl, List.forall_mem_nil _⟩
      | _ => cases hliteral
  | false =>
      rw [describe_eq_call hliteral] at h
      cases h with
      | call arguments_within => exact ⟨_, rfl, List.forall_mem_map.mp arguments_within⟩

/-- An expression has no more levels than its description, and the same numbers. -/
theorem bounded_of_within_describe {n : Nat} (e : Expr) (h : e.describe.Within n) :
    e.height ≤ n ∧ e.Everywhere FitsNumber := by
  obtain ⟨m, rfl, hdescribe⟩ := within_describe_arguments h
  have harguments : ∀ a ∈ e.arguments, a.height ≤ m ∧ a.Everywhere FitsNumber :=
    fun a ha => bounded_of_within_describe a (hdescribe a ha)
  exact ⟨height_le_succ_of_arguments fun a ha => (harguments a ha).1,
    everywhere_of_arguments (fitsNumber_of_within_describe h) fun a ha => (harguments a ha).2⟩
termination_by sizeOf e
decreasing_by exact sizeOf_lt_of_mem_arguments ha

end Expr

end SheetFormula

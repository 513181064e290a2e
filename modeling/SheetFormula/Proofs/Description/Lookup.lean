import Mathlib.Data.List.Nodup
import SheetFormula.Registry

/-! Looking functions up. A name leads to the one definition under its key (`Registry.get?_eq_some_iff`),
and definitions under different keys are all there once they are registered. In the standard registry
the keys are the names of the operations, so a name leads to an operation if and only if its upper-case
form is the name of the operation. -/

namespace SheetFormula
namespace Registry

theorem eq_of_key_eq {r : Registry} {d e : Definition} (hd : d ∈ r.definitions)
    (he : e ∈ r.definitions) (h : d.key = e.key) : d = e := by
  have hnodup : (r.definitions.map Definition.key).Nodup := List.pairwise_map.mpr r.distinct
  exact List.inj_on_of_nodup_map hnodup hd he h

theorem get?_eq_some_iff {r : Registry} {name : String} {d : Definition} :
    r.get? name = some d ↔ d ∈ r.definitions ∧ d.key = Text.upper name := by
  constructor
  · intro h
    rw [get?] at h
    exact ⟨List.mem_of_find?_eq_some h, by simpa using List.find?_some h⟩
  · rintro ⟨hd, hkey⟩
    rw [get?]
    cases hfound : r.definitions.find? (·.key == Text.upper name) with
    | none =>
        have hne := List.find?_eq_none.mp hfound d hd
        simp [hkey] at hne
    | some e =>
        have hekey : e.key = Text.upper name := by simpa using List.find?_some hfound
        rw [eq_of_key_eq (List.mem_of_find?_eq_some hfound) hd (hekey.trans hkey.symm)]

theorem mem_registerAll {r : Registry} {ds : List Definition} {e : Definition}
    (hdistinct : ds.Pairwise fun a b => a.key ≠ b.key)
    (hfresh : ∀ d ∈ ds, ∀ a ∈ r.definitions, a.key ≠ d.key) :
    e ∈ (r.registerAll ds).definitions ↔ e ∈ ds ∨ e ∈ r.definitions := by
  induction ds generalizing r with
  | nil => simp [registerAll]
  | cons d ds ih =>
      obtain ⟨hd, hds⟩ := List.pairwise_cons.mp hdistinct
      have hnext : ∀ b ∈ ds, ∀ a ∈ (r.register d).definitions, a.key ≠ b.key := by
        intro b hb a ha
        rcases mem_register.mp ha with rfl | ⟨ha, -⟩
        · exact hd b hb
        · exact hfresh b (List.mem_cons_of_mem _ hb) a ha
      have hkept : ∀ a ∈ r.definitions, a.key ≠ d.key := hfresh d List.mem_cons_self
      rw [registerAll, List.foldl_cons, ← registerAll, ih hds hnext, mem_register, List.mem_cons]
      grind

end Registry

/-! ### The standard registry -/

theorem Operation.upper_name (op : Operation) : Text.upper op.name = op.name := by
  have hall : ∀ op ∈ Operation.all, Text.upper op.name = op.name := by decide +kernel
  exact hall op op.mem_all

theorem Definition.mem_standard {d : Definition} :
    d ∈ standard ↔ ∃ op arity, op.standardArity? = some arity ∧ d = ofOperation op arity := by
  rw [standard, List.mem_filterMap]
  constructor
  · rintro ⟨op, -, h⟩
    obtain ⟨arity, harity, rfl⟩ := Option.map_eq_some_iff.mp h
    exact ⟨op, arity, harity, rfl⟩
  · rintro ⟨op, arity, harity, rfl⟩
    exact ⟨op, op.mem_all, by rw [harity, Option.map_some]⟩

theorem Definition.key_of_mem_standard {d : Definition} (h : d ∈ standard) : d.key = d.name := by
  obtain ⟨op, arity, -, rfl⟩ := mem_standard.mp h
  exact op.upper_name

/-- No two operations share a name in any case. -/
theorem Definition.standard_distinct : standard.Pairwise fun a b => a.key ≠ b.key := by
  have hnames : standard.Pairwise fun a b => a.name ≠ b.name := by decide +kernel
  refine hnames.imp_of_mem fun ha hb hne => ?_
  rwa [key_of_mem_standard ha, key_of_mem_standard hb]

/-- In the standard registry a name leads to the operation whose name is its upper-case form. -/
theorem Registry.get?_standard_eq_some_iff {name : String} {d : Definition} :
    Registry.standard.get? name = some d ↔
      ∃ op arity, op.standardArity? = some arity ∧ d = .ofOperation op arity ∧
        op.name = Text.upper name := by
  have hfresh : ∀ d ∈ Definition.standard, ∀ a ∈ empty.definitions, a.key ≠ d.key := by
    intro d _ a ha
    cases ha
  rw [get?_eq_some_iff, standard, mem_registerAll Definition.standard_distinct hfresh]
  constructor
  · rintro ⟨hd | hd, hkey⟩
    · rw [Definition.key_of_mem_standard hd] at hkey
      obtain ⟨op, arity, harity, rfl⟩ := Definition.mem_standard.mp hd
      exact ⟨op, arity, harity, rfl, hkey⟩
    · cases hd
  · rintro ⟨op, arity, harity, rfl, hname⟩
    exact ⟨Or.inl (Definition.mem_standard.mpr ⟨op, arity, harity, rfl⟩), op.upper_name.trans hname⟩

end SheetFormula

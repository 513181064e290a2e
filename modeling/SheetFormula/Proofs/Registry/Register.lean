import Mathlib.Data.List.Induction
import SheetFormula.Proofs.Description.Lookup

/-! What a name leads to after any number of registrations: the definition that was registered last under
the key of the name. Registering a definition changes what the names with its key lead to, and nothing
else. -/

namespace SheetFormula

/-- The last definition of a list under the key of a name. -/
def Definition.latest? (ds : List Definition) (name : String) : Option Definition :=
  ds.reverse.find? (·.key == Text.upper name)

theorem Definition.latest?_eq_none_iff {ds : List Definition} {name : String} :
    latest? ds name = none ↔ ∀ d ∈ ds, d.key ≠ Text.upper name := by
  rw [latest?, List.find?_eq_none]
  simp

theorem Definition.latest?_concat (ds : List Definition) (d : Definition) (name : String) :
    latest? (ds ++ [d]) name = if d.key = Text.upper name then some d else latest? ds name := by
  rw [latest?, List.reverse_append, List.reverse_singleton, List.singleton_append]
  by_cases h : d.key = Text.upper name
  · rw [if_pos h, List.find?_cons_of_pos (by simpa using h)]
  · rw [if_neg h, List.find?_cons_of_neg (by simpa using h), latest?]

namespace Registry

theorem get?_register (r : Registry) (d : Definition) (name : String) :
    (r.register d).get? name = if d.key = Text.upper name then some d else r.get? name := by
  apply Option.ext
  intro e
  rw [get?_eq_some_iff, mem_register]
  by_cases h : d.key = Text.upper name
  · rw [if_pos h, Option.some.injEq]
    constructor
    · rintro ⟨rfl | ⟨-, hne⟩, hkey⟩
      · rfl
      · exact absurd (hkey.trans h.symm) hne
    · rintro rfl
      exact ⟨Or.inl rfl, h⟩
  · rw [if_neg h, get?_eq_some_iff]
    constructor
    · rintro ⟨rfl | ⟨he, -⟩, hkey⟩
      · exact absurd hkey h
      · exact ⟨he, hkey⟩
    · rintro ⟨he, hkey⟩
      exact ⟨Or.inr ⟨he, fun heq => h (heq.symm.trans hkey)⟩, hkey⟩

theorem get?_registerAll_empty (ds : List Definition) (name : String) :
    (empty.registerAll ds).get? name = Definition.latest? ds name := by
  induction ds using List.reverseRecOn with
  | nil => rfl
  | append_singleton ds d ih =>
      rw [registerAll, List.foldl_append, List.foldl_cons, List.foldl_nil, ← registerAll, get?_register,
        ih, Definition.latest?_concat]

/-- Registering further definitions in the standard registry is registering all of them, the standard ones
first. -/
theorem registerAll_standard (ds : List Definition) :
    standard.registerAll ds = empty.registerAll (Definition.standard ++ ds) := by
  rw [standard, registerAll, registerAll, registerAll, List.foldl_append]

/-- A name leads to the last of the definitions under its key, the standard ones before all others. -/
theorem get?_registerAll_standard (ds : List Definition) (name : String) :
    (standard.registerAll ds).get? name = Definition.latest? (Definition.standard ++ ds) name := by
  rw [registerAll_standard, get?_registerAll_empty]

end Registry
end SheetFormula

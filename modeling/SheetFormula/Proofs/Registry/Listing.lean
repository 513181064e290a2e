import Mathlib.Data.Finset.Card
import SheetFormula.Proofs.Registry.Register

/-! The listing of a registry. Definitions that are registered one after another can be kept in a hash
table, each under its key and in the place of an older one under the same key. A table yields its
definitions in an order that means nothing; but no two of them share a name, so that sorted by their
names they are one list, and it is the list of the registry (`Registry.sorted_eq_definitions`). -/

namespace SheetFormula

namespace Definition

/-- Definitions by their keys. -/
abbrev Table := Std.HashMap String Definition

/-- The table that a registration leaves. -/
def Table.register (t : Table) (d : Definition) : Table := t.insert d.key d

/-- The table that registrations one after another leave. -/
def table (ds : List Definition) : Table := ds.foldl Table.register ∅

def entry (d : Definition) : String × Definition := (d.key, d)

theorem insertByName_perm (d : Definition) (ds : List Definition) :
    (d.insertByName ds).Perm (d :: ds) := by
  induction ds with
  | nil => exact .refl _
  | cons e es ih =>
      rw [insertByName]
      split
      · exact .refl _
      · exact (ih.cons e).trans (.swap d e es)

end Definition

namespace Registry

/-! ### The table of a registry -/

/-- Whether a table has the definitions of a registry, each under its key. -/
def Lists (r : Registry) (t : Definition.Table) : Prop :=
  t.toList.Perm (r.definitions.map Definition.entry)

theorem lists_empty : empty.Lists ∅ := by
  rw [Lists, Std.HashMap.toList_empty]
  exact .refl _

/-- A table that lists a registry goes on listing it. -/
theorem Lists.register {r : Registry} {t : Definition.Table} (h : r.Lists t) (d : Definition) :
    (r.register d).Lists (t.register d) := by
  have hothers : (t.toList.filter fun x => decide ¬(d.key == x.1) = true).Perm
      ((d.others r.definitions).map Definition.entry) := by
    refine (h.filter _).trans (.of_eq ?_)
    rw [List.filter_map, Definition.others]
    refine congrArg (List.map Definition.entry) (List.filter_congr fun e _ => ?_)
    by_cases hkey : d.key = e.key
    · simp [Definition.entry, hkey]
    · simp [Definition.entry, hkey, Ne.symm hkey]
  have hinsert : (t.register d).toList.Perm
      (d.entry :: t.toList.filter fun x => decide ¬(d.key == x.1) = true) :=
    Std.HashMap.toList_insert_perm
  exact (hinsert.trans (hothers.cons _)).trans ((d.insertByName_perm _).map _).symm

theorem lists_registerAll (ds : List Definition) :
    (empty.registerAll ds).Lists (Definition.table ds) := by
  induction ds using List.reverseRecOn with
  | nil => exact lists_empty
  | append_singleton ds d ih =>
      rw [registerAll, Definition.table, List.foldl_concat, List.foldl_concat]
      exact ih.register d

/-- A table leads to the same definitions as the registry that it lists. -/
theorem Lists.getElem?_eq {r : Registry} {t : Definition.Table} (h : r.Lists t) (name : String) :
    t[Text.upper name]? = r.get? name := by
  refine Option.ext fun d => ?_
  rw [← Std.HashMap.mem_toList_iff_getElem?_eq_some, h.mem_iff, get?_eq_some_iff, List.mem_map]
  constructor
  · rintro ⟨e, he, hentry⟩
    obtain ⟨hkey, rfl⟩ := Prod.mk.inj hentry
    exact ⟨he, hkey⟩
  · rintro ⟨hd, hkey⟩
    exact ⟨d, hd, by rw [Definition.entry, hkey]⟩

/-! ### The order of names -/

theorem eq_of_name_eq {r : Registry} {d e : Definition} (hd : d ∈ r.definitions)
    (he : e ∈ r.definitions) (h : d.name = e.name) : d = e :=
  eq_of_key_eq hd he (congrArg Text.upper h)

theorem nodup_definitions (r : Registry) : r.definitions.Nodup := by
  refine r.distinct.imp ?_
  rintro d _ hne rfl
  exact hne rfl

theorem sorted_le (r : Registry) : r.definitions.Pairwise fun d e => d.name ≤ e.name :=
  r.sorted.imp fun hlt => String.not_lt.mp fun hgt => String.lt_irrefl _ (String.lt_trans hlt hgt)

/-- The definitions of a registry in any order become its list when they are sorted by name. -/
theorem sorted_eq_definitions {r : Registry} {ds : List Definition} (h : ds.Perm r.definitions) :
    ds.mergeSort (fun d e => d.name ≤ e.name) = r.definitions := by
  have hperm : (ds.mergeSort fun d e => d.name ≤ e.name).Perm r.definitions :=
    (List.mergeSort_perm _ _).trans h
  have hsorted : (ds.mergeSort fun d e => d.name ≤ e.name).Pairwise fun d e => d.name ≤ e.name := by
    have hle : (ds.mergeSort fun d e => d.name ≤ e.name).Pairwise
        fun d e => decide (d.name ≤ e.name) = true := by
      apply List.pairwise_mergeSort
      · intro a b c hab hbc
        exact decide_eq_true (String.le_trans (of_decide_eq_true hab) (of_decide_eq_true hbc))
      · intro a b
        simpa using String.le_total a.name b.name
    simpa using hle
  refine List.Perm.eq_of_pairwise (fun d e hd he hde hed => ?_) hsorted r.sorted_le hperm
  exact eq_of_name_eq (hperm.mem_iff.mp hd) he (String.le_antisymm hde hed)

/-! ### What is registered -/

section Registered

variable (ds : List Definition)

/-- The live definitions are those that their own names lead to. -/
theorem mem_registerAll_empty_iff {d : Definition} :
    d ∈ (empty.registerAll ds).definitions ↔ Definition.latest? ds d.name = some d := by
  rw [← get?_registerAll_empty, get?_eq_some_iff]
  exact (and_iff_left rfl).symm

theorem keys_registerAll_empty {key : String} :
    key ∈ (empty.registerAll ds).definitions.map Definition.key ↔ key ∈ ds.map Definition.key := by
  rw [List.mem_map, List.mem_map]
  constructor
  · rintro ⟨d, hd, rfl⟩
    have hlatest := (mem_registerAll_empty_iff ds).mp hd
    rw [Definition.latest?] at hlatest
    exact ⟨d, List.mem_reverse.mp (List.mem_of_find?_eq_some hlatest), rfl⟩
  · rintro ⟨d, hd, rfl⟩
    cases hlatest : Definition.latest? ds d.name with
    | none => exact absurd rfl (Definition.latest?_eq_none_iff.mp hlatest d hd)
    | some e =>
        rw [← get?_registerAll_empty, get?_eq_some_iff] at hlatest
        exact ⟨e, hlatest.1, hlatest.2⟩

theorem size_registerAll_empty :
    (empty.registerAll ds).size = (ds.map Definition.key).dedup.length := by
  have hnodup : ((empty.registerAll ds).definitions.map Definition.key).Nodup :=
    List.pairwise_map.mpr (empty.registerAll ds).distinct
  have hperm : ((empty.registerAll ds).definitions.map Definition.key).Perm
      (ds.map Definition.key).dedup := by
    rw [List.perm_ext_iff_of_nodup hnodup (List.nodup_dedup _)]
    intro key
    rw [keys_registerAll_empty, List.mem_dedup]
  rw [size, ← hperm.length_eq, List.length_map]

end Registered

/-- What a registry holds, after any registrations. A name leads to the definition that was registered last
under its key, the standard ones before all others, and there are as many definitions as keys. The list
has each definition that its own name leads to once, and no other; its names increase strictly, and it is
what becomes of the entries of a hash table, in whatever order they come, when they are sorted by
name. -/
theorem registered_definitions (ds : List Definition) :
    let r := standard.registerAll ds
    let registered := Definition.standard ++ ds
    (∀ name, r.get? name = Definition.latest? registered name) ∧
    r.size = (registered.map Definition.key).dedup.length ∧
    (∀ d, r.definitions.count d = if Definition.latest? registered d.name = some d then 1 else 0) ∧
    (r.definitions.Pairwise fun d e => d.name < e.name) ∧
    (∀ entries : List (String × Definition), entries.Perm (Definition.table registered).toList →
      (entries.map Prod.snd).mergeSort (fun d e => d.name ≤ e.name) = r.definitions) ∧
    (∀ name, (Definition.table registered)[Text.upper name]? = r.get? name) ∧
    r.names = r.definitions.map Definition.name ∧
    ∀ d ∈ r.definitions, r.get? d.name = some d := by
  intro r registered
  have hr : r = empty.registerAll registered := registerAll_standard ds
  have hlists : r.Lists (Definition.table registered) := by
    rw [hr]
    exact lists_registerAll registered
  refine ⟨fun name => ?_, ?_, fun d => ?_, r.sorted, fun entries hentries => ?_,
    hlists.getElem?_eq, rfl, fun d hd => get?_eq_some_iff.mpr ⟨hd, rfl⟩⟩
  · rw [hr, get?_registerAll_empty]
  · rw [hr, size_registerAll_empty]
  · rw [r.nodup_definitions.count, hr]
    exact if_congr (mem_registerAll_empty_iff registered) rfl rfl
  · have hvalues := (hentries.trans hlists).map Prod.snd
    rw [List.map_map] at hvalues
    exact sorted_eq_definitions (hvalues.trans (.of_eq (List.map_id _)))

end Registry
end SheetFormula

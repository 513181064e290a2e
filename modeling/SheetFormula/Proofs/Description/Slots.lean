import Mathlib.Data.List.Forall2
import Mathlib.Data.List.Perm.Basic
import SheetFormula.Description

/-! What the members of an object say about one key. The slot of a key depends on nothing but the values of
the members with this key, and not on their order either: it is filled by the only one of them, if that
is of the right kind (`Slot.ofList_eq_filled_iff`), absent if there are none, and unfit otherwise. -/

namespace SheetFormula

theorem exists_of_forall₂ {α β : Type} {R : α → β → Prop} {as : List α} {bs : List β} {a : α}
    (h : List.Forall₂ R as bs) (ha : a ∈ as) : ∃ b ∈ bs, R a b := by
  induction h with
  | nil => cases ha
  | cons hab _ ih =>
      rcases List.mem_cons.mp ha with rfl | ha
      · exact ⟨_, List.mem_cons_self, hab⟩
      · obtain ⟨b, hb, h⟩ := ih ha
        exact ⟨b, List.mem_cons_of_mem _ hb, h⟩

/-! ### Slots -/

namespace Slot

variable {α : Type} {values values' : List (Option α)}

/-- The slot after members with the given values. -/
def ofList (values : List (Option α)) : Slot α := values.foldr (fun value? s => s.put value?) absent

theorem put_right_comm (s : Slot α) (x y : Option α) : (s.put x).put y = (s.put y).put x := by
  cases s <;> cases x <;> cases y <;> rfl

theorem ofList_eq_of_perm (h : values.Perm values') : ofList values = ofList values' :=
  h.foldr_eq' (fun x _ y _ s => put_right_comm s x y) absent

theorem put_ne_absent (s : Slot α) (x : Option α) : s.put x ≠ absent := by
  cases s <;> cases x <;> simp [put]

theorem ofList_eq_absent_iff : ofList values = absent ↔ values = [] := by
  cases values with
  | nil => simp [ofList]
  | cons x values => simp [ofList, put_ne_absent]

theorem put_eq_filled_iff {s : Slot α} {x : Option α} {a : α} :
    s.put x = filled a ↔ s = absent ∧ x = some a := by
  cases s <;> cases x <;> simp [put]

theorem ofList_eq_filled_iff {a : α} : ofList values = filled a ↔ values = [some a] := by
  cases values with
  | nil => simp [ofList]
  | cons x values =>
      have hcons : ofList (x :: values) = (ofList values).put x := rfl
      rw [hcons, put_eq_filled_iff, ofList_eq_absent_iff, List.cons.injEq, and_comm]

end Slot

/-! ### Members -/

namespace Json

/-- The keys that descriptions are read from. -/
def ownKeys : List String := ["text", "number", "field", "op", "args"]

/-- The values of the members with a key, in their order. -/
def valuesAt (key : String) (members : List (String × Json)) : List Json :=
  (members.filter (·.1 == key)).map Prod.snd

variable {key : String} {v : Json} {members members' : List (String × Json)}

@[simp] theorem valuesAt_nil (key : String) : valuesAt key [] = [] := rfl

@[simp] theorem valuesAt_cons_self (key : String) (v : Json) (members : List (String × Json)) :
    valuesAt key ((key, v) :: members) = v :: valuesAt key members := by
  simp [valuesAt]

@[simp] theorem valuesAt_cons_of_ne {other : String} (h : other ≠ key) (v : Json)
    (members : List (String × Json)) : valuesAt key ((other, v) :: members) = valuesAt key members := by
  simp [valuesAt, h]

theorem mem_of_valuesAt (h : valuesAt key members = [v]) : (key, v) ∈ members := by
  have hv : v ∈ valuesAt key members := h ▸ List.mem_cons_self
  rw [valuesAt, List.mem_map] at hv
  obtain ⟨m, hm, rfl⟩ := hv
  obtain ⟨hm, hkey⟩ := List.mem_filter.mp hm
  rwa [← beq_iff_eq.mp hkey]

theorem valuesAt_perm (key : String) (h : members.Perm members') :
    (valuesAt key members).Perm (valuesAt key members') :=
  (h.filter _).map _

/-- The slot of a key. -/
def slotAt {α : Type} (key : String) (read : Json → Option α) (members : List (String × Json)) : Slot α :=
  .ofList ((valuesAt key members).map read)

/-- The slots of an object are the slots of its keys. -/
theorem slots_eq (members : List (String × Json)) :
    slots members = ⟨slotAt "text" string? members, slotAt "number" number? members,
      slotAt "field" string? members, slotAt "op" string? members,
      slotAt "args" describeItems? members⟩ := by
  have hput {α : Type} (key : String) (read : Json → Option α) (v : Json)
      (members : List (String × Json)) :
      slotAt key read ((key, v) :: members) = (slotAt key read members).put (read v) := by
    simp [slotAt, Slot.ofList]
  have hskip {α : Type} {key other : String} (read : Json → Option α) (v : Json)
      (members : List (String × Json)) (h : other ≠ key) :
      slotAt key read ((other, v) :: members) = slotAt key read members := by
    simp [slotAt, h]
  induction members with
  | nil => rfl
  | cons m members ih =>
      obtain ⟨key, v⟩ := m
      unfold slots
      rw [ih]
      split <;> simp_all

theorem slotAt_eq_absent_iff {α : Type} {read : Json → Option α} :
    slotAt key read members = .absent ↔ valuesAt key members = [] := by
  rw [slotAt, Slot.ofList_eq_absent_iff, List.map_eq_nil_iff]

theorem slotAt_eq_filled_iff {α : Type} {read : Json → Option α} {a : α} :
    slotAt key read members = .filled a ↔ ∃ v, valuesAt key members = [v] ∧ read v = some a := by
  rw [slotAt, Slot.ofList_eq_filled_iff, List.map_eq_singleton_iff]

theorem string?_eq_some_iff {s : String} : v.string? = some s ↔ v = string s := by
  cases v <;> simp [string?]

theorem number?_eq_some_iff {x : Binary64} : v.number? = some x ↔ v = number x := by
  cases v <;> simp [number?]

theorem describeItems?_eq_some_iff {ds : List Description} :
    v.describeItems? = some ds ↔ ∃ items, v = array items ∧ describeAll? items = some ds := by
  cases v <;> simp [describeItems?]

theorem describeAll?_eq_some_iff {items : List Json} {ds : List Description} :
    describeAll? items = some ds ↔ List.Forall₂ (fun item d => item.describe? = some d) items ds := by
  induction items generalizing ds with
  | nil => simp [describeAll?, eq_comm]
  | cons item items ih =>
      cases ds with
      | nil => simp [describeAll?, Option.bind_eq_some_iff]
      | cons d ds => simp [describeAll?, Option.bind_eq_some_iff, ih]

theorem slotAt_string?_eq_filled_iff {s : String} :
    slotAt key string? members = .filled s ↔ valuesAt key members = [string s] := by
  simp [slotAt_eq_filled_iff, string?_eq_some_iff]

theorem slotAt_number?_eq_filled_iff {x : Binary64} :
    slotAt key number? members = .filled x ↔ valuesAt key members = [number x] := by
  simp [slotAt_eq_filled_iff, number?_eq_some_iff]

theorem slotAt_describeItems?_eq_filled_iff {ds : List Description} :
    slotAt key describeItems? members = .filled ds ↔
      ∃ items, valuesAt key members = [array items] ∧ describeAll? items = some ds := by
  rw [slotAt_eq_filled_iff]
  constructor
  · rintro ⟨v, hv, hread⟩
    obtain ⟨items, rfl, hitems⟩ := describeItems?_eq_some_iff.mp hread
    exact ⟨items, hv, hitems⟩
  · rintro ⟨items, hv, hitems⟩
    exact ⟨array items, hv, describeItems?_eq_some_iff.mpr ⟨items, rfl, hitems⟩⟩

end Json

/-! ### The slots that a description needs -/

namespace Slots

variable {s : Slots}

theorem describe?_eq_text_iff {value : String} :
    s.describe? = some (.text value) ↔ s.text = .filled value := by
  unfold describe?
  split <;> simp_all

theorem describe?_eq_number_iff {value : Binary64} :
    s.describe? = some (.number value) ↔ (∀ t, s.text ≠ .filled t) ∧ s.number = .filled value := by
  unfold describe?
  split <;> simp_all

theorem describe?_eq_field_iff {name : String} :
    s.describe? = some (.field name) ↔
      (∀ t, s.text ≠ .filled t) ∧ (∀ x, s.number ≠ .filled x) ∧ s.field = .filled name := by
  unfold describe?
  split <;> simp_all

theorem describe?_eq_call_iff {op : String} {ds : List Description} :
    s.describe? = some (.call op ds) ↔
      ((∀ t, s.text ≠ .filled t) ∧ (∀ x, s.number ≠ .filled x) ∧ ∀ f, s.field ≠ .filled f) ∧
      s.op = .filled op ∧ (s.args = .filled ds ∨ s.args = .absent ∧ ds = []) := by
  unfold describe?
  split <;> simp_all

end Slots

end SheetFormula

import Mathlib.Logic.Relation
import SheetFormula.Proofs.Description.Arguments
import SheetFormula.Proofs.Description.Slots

/-! Descriptions by first fit. A value is read as the first description that fits its members, where a
description fits if each key of its own that it needs is there once, with a value of the right kind
(`Json.FirstFit`). Nothing else about the members matters: neither their order, nor what stands under
any other key, at any depth of arguments (`Json.Rearrangement`). -/

namespace SheetFormula
namespace Json

/-! ### What fits -/

def FitsText (members : List (String × Json)) (value : String) : Prop :=
  valuesAt "text" members = [string value]

def FitsNumber (members : List (String × Json)) (value : Binary64) : Prop :=
  valuesAt "number" members = [number value]

def FitsField (members : List (String × Json)) (name : String) : Prop :=
  valuesAt "field" members = [string name]

/-- Members that no literal fits. -/
structure FitsNoLiteral (members : List (String × Json)) : Prop where
  notText : ∀ value, ¬ FitsText members value
  notNumber : ∀ value, ¬ FitsNumber members value
  notField : ∀ name, ¬ FitsField members name

/-- The first description that fits a value, in the order text, number, field, call. The arguments of a
call are the first descriptions that fit the items; without any `args` there are none. -/
inductive FirstFit : Json → Description → Prop where
  | text {members : List (String × Json)} {value : String} (h : FitsText members value) :
      FirstFit (object members) (.text value)
  | number {members : List (String × Json)} {value : Binary64}
      (notText : ∀ value, ¬ FitsText members value) (h : FitsNumber members value) :
      FirstFit (object members) (.number value)
  | field {members : List (String × Json)} {name : String}
      (notText : ∀ value, ¬ FitsText members value) (notNumber : ∀ value, ¬ FitsNumber members value)
      (h : FitsField members name) : FirstFit (object members) (.field name)
  | call {members : List (String × Json)} {op : String} {items : List Json}
      {arguments : List Description} (noLiteral : FitsNoLiteral members)
      (hop : valuesAt "op" members = [string op]) (hargs : valuesAt "args" members = [array items])
      (hitems : List.Forall₂ FirstFit items arguments) :
      FirstFit (object members) (.call op arguments)
  | constant {members : List (String × Json)} {op : String} (noLiteral : FitsNoLiteral members)
      (hop : valuesAt "op" members = [string op]) (hargs : valuesAt "args" members = []) :
      FirstFit (object members) (.call op [])

/-- An item of the arguments of an object that no literal fits. -/
inductive Argument : Json → Json → Prop where
  | intro {members : List (String × Json)} {items : List Json} {item : Json}
      (noLiteral : FitsNoLiteral members) (hargs : valuesAt "args" members = [array items])
      (hitem : item ∈ items) : Argument (object members) item

/-- A change of one object, at any depth of arguments, that leaves it the same description: its members
change places, or there is one more with a key of no description. -/
inductive Rearrangement : Json → Json → Prop where
  | permuted {members members' : List (String × Json)} (h : members.Perm members') :
      Rearrangement (object members) (object members')
  | foreign {key : String} {v : Json} {members : List (String × Json)} (h : key ∉ ownKeys) :
      Rearrangement (object members) (object ((key, v) :: members))
  | argument {item item' : Json} {before after : List Json} {members : List (String × Json)}
      (h : Rearrangement item item') :
      Rearrangement (object (("args", array (before ++ item :: after)) :: members))
        (object (("args", array (before ++ item' :: after)) :: members))

/-! ### First fits -/

/-- A value is read as the description that fits first. -/
theorem describe?_eq_some_iff {v : Json} {d : Description} : v.describe? = some d ↔ v.FirstFit d := by
  induction d using Description.induction generalizing v with
  | text value =>
      cases v with
      | object members =>
          simp only [describe?, slots_eq, Slots.describe?_eq_text_iff, slotAt_string?_eq_filled_iff]
          exact ⟨.text, fun | .text h => h⟩
      | _ => exact iff_of_false nofun nofun
  | number value =>
      cases v with
      | object members =>
          simp only [describe?, slots_eq, Slots.describe?_eq_number_iff, slotAt_string?_eq_filled_iff,
            slotAt_number?_eq_filled_iff, ne_eq]
          exact ⟨fun ⟨ht, h⟩ => .number ht h, fun | .number ht h => ⟨ht, h⟩⟩
      | _ => exact iff_of_false nofun nofun
  | field name =>
      cases v with
      | object members =>
          simp only [describe?, slots_eq, Slots.describe?_eq_field_iff, slotAt_string?_eq_filled_iff,
            slotAt_number?_eq_filled_iff, ne_eq]
          exact ⟨fun ⟨ht, hn, h⟩ => .field ht hn h, fun | .field ht hn h => ⟨ht, hn, h⟩⟩
      | _ => exact iff_of_false nofun nofun
  | call op ds ih =>
      have hitems (items : List Json) :
          describeAll? items = some ds ↔ List.Forall₂ FirstFit items ds := by
        rw [describeAll?_eq_some_iff, List.forall₂_iff_zip, List.forall₂_iff_zip]
        have hzip {item : Json} {d : Description} (h : (item, d) ∈ items.zip ds) :
            item.describe? = some d ↔ item.FirstFit d := ih d (List.of_mem_zip h).2
        exact and_congr_right fun _ =>
          ⟨fun h _ _ hmem => (hzip hmem).mp (h hmem), fun h _ _ hmem => (hzip hmem).mpr (h hmem)⟩
      cases v with
      | object members =>
          simp only [describe?, slots_eq, Slots.describe?_eq_call_iff, slotAt_string?_eq_filled_iff,
            slotAt_number?_eq_filled_iff, slotAt_describeItems?_eq_filled_iff, slotAt_eq_absent_iff,
            hitems, ne_eq]
          constructor
          · rintro ⟨⟨ht, hn, hf⟩, hop, ⟨items, hargs, hds⟩ | ⟨hargs, rfl⟩⟩
            · exact .call ⟨ht, hn, hf⟩ hop hargs hds
            · exact .constant ⟨ht, hn, hf⟩ hop hargs
          · intro h
            cases h with
            | call noLiteral hop hargs hds =>
                exact ⟨⟨noLiteral.notText, noLiteral.notNumber, noLiteral.notField⟩, hop,
                  Or.inl ⟨_, hargs, hds⟩⟩
            | constant noLiteral hop hargs =>
                exact ⟨⟨noLiteral.notText, noLiteral.notNumber, noLiteral.notField⟩, hop,
                  Or.inr ⟨hargs, rfl⟩⟩
      | _ => exact iff_of_false nofun nofun

/-- If an argument is no description, the call is none either, at whatever depth the argument stands. -/
theorem not_firstFit_of_argument {v w : Json} (h : Relation.ReflTransGen Argument v w)
    (hw : ∀ d, ¬ w.FirstFit d) (d : Description) : ¬ v.FirstFit d := by
  induction h using Relation.ReflTransGen.head_induction_on generalizing d with
  | refl => exact hw d
  | head hargument _ ih =>
      cases hargument with
      | intro noLiteral hargs hitem =>
          intro h
          cases h with
          | text h => exact noLiteral.notText _ h
          | number _ h => exact noLiteral.notNumber _ h
          | field _ _ h => exact noLiteral.notField _ h
          | call _ _ hargs' hitems =>
              cases hargs.symm.trans hargs'
              obtain ⟨d, -, hd⟩ := exists_of_forall₂ hitems hitem
              exact ih d hd
          | constant _ _ hargs' => cases hargs.symm.trans hargs'

/-! ### Rearrangements -/

theorem slots_eq_of_perm {members members' : List (String × Json)} (h : members.Perm members') :
    slots members = slots members' := by
  have hslot {α : Type} (key : String) (read : Json → Option α) :
      slotAt key read members = slotAt key read members' :=
    Slot.ofList_eq_of_perm ((valuesAt_perm key h).map read)
  rw [slots_eq, slots_eq, hslot, hslot, hslot, hslot, hslot]

theorem slots_foreign {key : String} (h : key ∉ ownKeys) (v : Json)
    (members : List (String × Json)) : slots ((key, v) :: members) = slots members := by
  simp only [ownKeys, List.mem_cons, List.not_mem_nil, or_false, not_or] at h
  rw [slots_eq, slots_eq]
  simp [slotAt, h]

theorem describeAll?_eq_of_item {item item' : Json} (h : item.describe? = item'.describe?)
    (before after : List Json) :
    describeAll? (before ++ item :: after) = describeAll? (before ++ item' :: after) := by
  induction before with
  | nil => rw [List.nil_append, List.nil_append, describeAll?, describeAll?, h]
  | cons b before ih => rw [List.cons_append, List.cons_append, describeAll?, describeAll?, ih]

theorem Rearrangement.describe?_eq {v v' : Json} (h : Rearrangement v v') :
    v.describe? = v'.describe? := by
  induction h with
  | permuted h => rw [describe?, describe?, slots_eq_of_perm h]
  | foreign h => rw [describe?, describe?, slots_foreign h]
  | argument h ih =>
      rw [describe?, describe?, slots, slots, describeItems?, describeItems?, describeAll?_eq_of_item ih]

theorem describe?_eq_of_eqvGen {v v' : Json} (h : Relation.EqvGen Rearrangement v v') :
    v.describe? = v'.describe? := by
  induction h with
  | rel _ _ h => exact h.describe?_eq
  | refl => rfl
  | symm _ _ _ ih => exact ih.symm
  | trans _ _ _ _ _ ih ih' => exact ih.trans ih'

end Json

/-- What is parsed of a text that is a value and nothing else. -/
theorem Description.parse_eq_of_read {source : String} {v : Json}
    (h : Json.read source.toList = .ok (v, [])) :
    parse source = v.describe?.elim (.error .mismatch) .ok := by
  rw [parse, h]
  cases hd : v.describe? <;> simp [hd, Json.expectEnd]

/-- The description of a text is the first one that fits its value. If none fits the value, or an item at
some depth of its arguments, parsing fails. And another text is parsed alike if its value is the same
up to the order of members and members with foreign keys, at any depth of arguments. -/
theorem Description.parse_by_first_fit {source : String} {v : Json}
    (h : Json.read source.toList = .ok (v, [])) :
    (∀ d, parse source = .ok d ↔ v.FirstFit d) ∧
    (∀ w, Relation.ReflTransGen Json.Argument v w → (∀ d, ¬ w.FirstFit d) →
      parse source = .error .mismatch ∧ ∀ r : Registry, r.load source = .error (.parse .mismatch)) ∧
    ∀ source' v', Json.read source'.toList = .ok (v', []) →
      Relation.EqvGen Json.Rearrangement v v' → parse source' = parse source := by
  have hparse := parse_eq_of_read h
  refine ⟨fun d => ?_, fun w hw hmisfit => ?_, fun source' v' h' hvv' => ?_⟩
  · rw [hparse, ← Json.describe?_eq_some_iff]
    cases v.describe? <;> simp
  · have hnone : v.describe? = none :=
      Option.eq_none_iff_forall_ne_some.mpr fun d hd =>
        Json.not_firstFit_of_argument hw hmisfit d (Json.describe?_eq_some_iff.mp hd)
    rw [hnone, Option.elim_none] at hparse
    exact ⟨hparse, fun r => by rw [Registry.load, hparse]⟩
  · rw [hparse, parse_eq_of_read h', Json.describe?_eq_of_eqvGen hvv']

/-- Keys with values of the wrong kind are passed over, also in an argument; a repeated key is not, also
two levels below. -/
theorem Description.first_fit_passes_over_wrong_kinds :
    let source := "\x7b\"args\": [\x7b\"op\": [], \"field\": \"a\"\x7d], \"op\": \"LEN\", \"text\": null\x7d"
    let source' := "\x7b\"op\": \"LEN\", \"text\": null, \"args\": " ++
      "[\x7b\"x\": [true], \"field\": \"a\", \"op\": []\x7d]\x7d"
    let item : Json := .object [("op", .array []), ("field", .string "a")]
    let item' : Json := .object [("x", .array [.bool true]), ("field", .string "a"), ("op", .array [])]
    let v : Json := .object [("args", .array [item]), ("op", .string "LEN"), ("text", .null)]
    let v' : Json := .object [("op", .string "LEN"), ("text", .null), ("args", .array [item'])]
    let repeating := "\x7b\"op\": \"ABS\", \"args\": [\x7b\"op\": \"LEN\", \"args\": " ++
      "[\x7b\"text\": \"a\", \"text\": \"b\"\x7d]\x7d]\x7d"
    Json.read source.toList = .ok (v, []) ∧ Json.read source'.toList = .ok (v', []) ∧
      Relation.EqvGen Json.Rearrangement v v' ∧ v.FirstFit (.call "LEN" [.field "a"]) ∧
      parse source = .ok (.call "LEN" [.field "a"]) ∧ parse source' = parse source ∧
      parse repeating = .error .mismatch := by
  intro source source' item item' v v' repeating
  have hread : Json.read source.toList = .ok (v, []) := by
    dsimp only [source, v, item]
    rfl
  have hread' : Json.read source'.toList = .ok (v', []) := by
    dsimp only [source', v', item']
    rfl
  have hrearranged : Relation.EqvGen Json.Rearrangement v v' := by
    let rest : List (String × Json) := [("op", .string "LEN"), ("text", .null)]
    let swapped : Json := .object [("field", .string "a"), ("op", .array [])]
    have hswap : Json.Rearrangement item swapped := .permuted (.swap ..)
    have hforeign : Json.Rearrangement swapped item' := .foreign (by decide)
    have hswap' := @Json.Rearrangement.argument _ _ [] [] rest hswap
    have hforeign' := @Json.Rearrangement.argument _ _ [] [] rest hforeign
    have hback : Json.Rearrangement (.object ([("args", .array [item'])] ++ rest)) v' :=
      .permuted List.perm_append_comm
    exact .trans _ _ _ (.rel _ _ hswap') (.trans _ _ _ (.rel _ _ hforeign') (.rel _ _ hback))
  have hfit : v.FirstFit (.call "LEN" [.field "a"]) :=
    .call ⟨nofun, nofun, nofun⟩ rfl rfl (.cons (.field nofun nofun rfl) .nil)
  obtain ⟨hparse, -, hrest⟩ := parse_by_first_fit hread
  let pair : Json := .object [("text", .string "a"), ("text", .string "b")]
  let inner : Json := .object [("op", .string "LEN"), ("args", .array [pair])]
  let outer : Json := .object [("op", .string "ABS"), ("args", .array [inner])]
  have hrepeating : Json.read repeating.toList = .ok (outer, []) := by
    dsimp only [repeating, outer, inner, pair]
    rfl
  have hinner : Json.Argument inner pair := .intro ⟨nofun, nofun, nofun⟩ rfl List.mem_cons_self
  have houter : Json.Argument outer inner := .intro ⟨nofun, nofun, nofun⟩ rfl List.mem_cons_self
  have hpair : ∀ d, ¬ pair.FirstFit d := fun d hd => nomatch Json.describe?_eq_some_iff.mpr hd
  obtain ⟨-, hmisfit, -⟩ := parse_by_first_fit hrepeating
  exact ⟨hread, hread', hrearranged, hfit, (hparse _).mpr hfit, hrest source' v' hread' hrearranged,
    (hmisfit pair (.head houter (.single hinner)) hpair).1⟩

end SheetFormula

import SheetFormula.Compile
import SheetFormula.Proofs.Description.PostOrder

/-! What a registration means for descriptions. Those that do not use the name of the new definition
build as before (`Description.build_register_of_unused`). A new name for what has a name already is an
alias: calls of one may be turned into calls of the other, in any spelling, and only the name in an error
about the number of arguments shows it (`Description.Renamed.alike`). -/

namespace SheetFormula

/-- Whether two results are the same, except that one error names a definition and the other one its
alias, with the same arity. -/
inductive AlikeButName {α : Type} (old new : String) : Except BuildError α → Except BuildError α → Prop
  | same (x : Except BuildError α) : AlikeButName old new x x
  | argumentCount (arity : Arity) (n : Nat) :
      AlikeButName old new (.error (.argumentCount old arity n)) (.error (.argumentCount new arity n))

namespace AlikeButName

variable {α β : Type} {old new : String} {x y : Except BuildError α}

theorem bind {f g : α → Except BuildError β} (h : AlikeButName old new x y)
    (hf : ∀ a, AlikeButName old new (f a) (g a)) : AlikeButName old new (x >>= f) (y >>= g) := by
  cases h with
  | argumentCount arity n => exact .argumentCount arity n
  | same =>
      cases x with
      | error err => exact .same _
      | ok a => exact hf a

theorem map (f : α → β) (h : AlikeButName old new x y) : AlikeButName old new (x.map f) (y.map f) := by
  cases h with
  | same => exact .same _
  | argumentCount arity n => exact .argumentCount arity n

theorem eq_ok_iff {a : α} (h : AlikeButName old new x y) : x = .ok a ↔ y = .ok a := by
  cases h with
  | same => rfl
  | argumentCount => exact ⟨nofun, nofun⟩

end AlikeButName

namespace Registry

variable {r : Registry} {d m : Definition} {op op' : String}

theorem build_congr {r' : Registry} (h : r'.get? op = r.get? op) (es : List Expr) :
    r'.build op es = r.build op es := by
  rw [build, build, h]

/-- A name and its alias build the same from the same arguments. -/
theorem build_alike (hop : r.get? op = some m) (hop' : r.get? op' = some d)
    (hoperation : m.operation = d.operation) (harity : m.arity = d.arity) (es : List Expr) :
    AlikeButName m.name d.name (r.build op es) (r.build op' es) := by
  by_cases hcount : d.arity.Excludes es.length
  · rw [build_of_excludes hop (harity ▸ hcount), build_of_excludes hop' hcount, harity]
    exact .argumentCount d.arity es.length
  · rw [build_of_not_excludes hop (harity ▸ hcount), build_of_not_excludes hop' hcount, hoperation]
    exact .same _

theorem get?_congr {name name' : String} (h : Text.upper name = Text.upper name') :
    r.get? name = r.get? name' := by
  rw [get?, get?, h]

/-- Registering a definition under a new name does not hide those that there are. -/
theorem get?_register_of_new (hnew : r.get? d.name = none) (h : r.get? op = some m) :
    (r.register d).get? op = some m := by
  rw [get?_register, if_neg, h]
  intro hkey
  rw [get?_congr hkey, h] at hnew
  cases hnew

end Registry

namespace Description

/-- Descriptions that are equal but for the names of some calls: what is a spelling of `old` in one is a
spelling of `new` in the other. -/
inductive Renamed (old new : String) : Description → Description → Prop
  | text (value : String) : Renamed old new (.text value) (.text value)
  | number (value : Binary64) : Renamed old new (.number value) (.number value)
  | field (name : String) : Renamed old new (.field name) (.field name)
  | kept (op : String) {ds ds' : List Description} (harguments : List.Forall₂ (Renamed old new) ds ds') :
      Renamed old new (.call op ds) (.call op ds')
  | replaced {op op' : String} {ds ds' : List Description} (hop : Text.upper op = Text.upper old)
      (hop' : Text.upper op' = Text.upper new) (harguments : List.Forall₂ (Renamed old new) ds ds') :
      Renamed old new (.call op ds) (.call op' ds')

variable {r r' : Registry}

/-! ### Registries that agree on the names in a description -/

theorem buildAll_congr {ds : List Description} (h : ∀ d ∈ ds, d.build r' = d.build r) :
    buildAll r' ds = buildAll r ds := by
  induction ds with
  | nil => rfl
  | cons d ds ih =>
      obtain ⟨hd, hds⟩ := List.forall_mem_cons.mp h
      rw [buildAll, buildAll, hd, ih hds]

theorem build_congr {x : Description} (h : ∀ op ds, call op ds ∈ x.calls → r'.get? op = r.get? op) :
    x.build r' = x.build r := by
  induction x using Description.induction with
  | text | number | field => rfl
  | call op ds ih =>
      have harguments : buildAll r' ds = buildAll r ds :=
        buildAll_congr fun d hd => ih d hd fun op' ds' hmem =>
          h op' ds' (mem_calls_of_argument hd hmem op)
      have hself : r'.build op = r.build op :=
        funext fun es => Registry.build_congr (h op ds (call_mem_calls op ds)) es
      rw [build, build, harguments, hself]

theorem build_register_of_unused {d : Definition} {x : Description}
    (h : ∀ op ds, call op ds ∈ x.calls → Text.upper op ≠ d.key) : x.build (r.register d) = x.build r :=
  build_congr fun op ds hmem => by rw [Registry.get?_register, if_neg (h op ds hmem).symm]

/-! ### Calls under an alias -/

section Alias

variable {d m : Definition} {old : String}

theorem buildAll_alike {ds ds' : List Description}
    (h : List.Forall₂ (fun x x' => AlikeButName m.name d.name (x.build r) (x'.build r)) ds ds') :
    AlikeButName m.name d.name (buildAll r ds) (buildAll r ds') := by
  induction h with
  | nil => exact .same _
  | cons hd _ ih => exact hd.bind fun e => ih.bind fun es => .same _

theorem Renamed.alike (hold : r.get? old = some m) (hnew : r.get? d.name = some d)
    (hoperation : m.operation = d.operation) (harity : m.arity = d.arity) {x x' : Description}
    (h : Renamed old d.name x x') : AlikeButName m.name d.name (x.build r) (x'.build r) := by
  induction x using Description.induction generalizing x' with
  | text | number | field =>
      cases h
      exact .same _
  | call op ds ih =>
      have hall {ds' : List Description} (harguments : List.Forall₂ (Renamed old d.name) ds ds') :
          AlikeButName m.name d.name (buildAll r ds) (buildAll r ds') := by
        have hboth := (List.forall₂_and_left _ _).mpr ⟨fun d hd => @ih d hd, harguments⟩
        exact buildAll_alike (hboth.imp fun d d' h => h.1 h.2)
      cases h with
      | kept _ harguments => exact (hall harguments).bind fun es => .same _
      | replaced hop hop' harguments =>
          refine (hall harguments).bind fun es => Registry.build_alike ?_ ?_ hoperation harity es
          · rw [Registry.get?_congr hop, hold]
          · rw [Registry.get?_congr hop', hnew]

end Alias

/-- Registering a definition changes nothing for descriptions that do not call its name. If the name is
new and is an alias, with the operation and the arity of a definition that was there under another name,
then calls of that name may be turned into calls of the new one, anywhere and in any spelling: the
expression and its formula stay the same, and so does an error, except that a wrong number of arguments
is reported under the other name. -/
theorem registration_is_local (r : Registry) (d : Definition) :
    (∀ x : Description, (∀ op ds, call op ds ∈ x.calls → Text.upper op ≠ d.key) →
      x.build (r.register d) = x.build r) ∧
    ∀ old m, r.get? d.name = none → r.get? old = some m → m.operation = d.operation →
      m.arity = d.arity → ∀ x x', Renamed old d.name x x' →
        let built := x.build (r.register d)
        let built' := x'.build (r.register d)
        AlikeButName m.name d.name built built' ∧
        (∀ e, built = .ok e ↔ built' = .ok e) ∧
        ∀ limit, AlikeButName m.name d.name (built.map fun e => e.compile limit)
          (built'.map fun e => e.compile limit) := by
  refine ⟨fun x => build_register_of_unused, ?_⟩
  intro old m hnew hold hoperation harity x x' hrenamed built built'
  have hself : (r.register d).get? d.name = some d := by
    rw [Registry.get?_register, Definition.key, if_pos rfl]
  have halike : AlikeButName m.name d.name built built' :=
    hrenamed.alike (Registry.get?_register_of_new hnew hold) hself hoperation harity
  exact ⟨halike, fun e => halike.eq_ok_iff, fun limit => halike.map _⟩

/-- An alias whose upper-case form is longer than it is, in calls of which one has no argument. -/
theorem registration_of_longer_alias :
    let r := Registry.standard
    let d : Definition := ⟨"maß", .exactly 1, .unary .len⟩
    let m := Definition.ofOperation (.unary .len) (.exactly 1)
    let x := call "&" [call "Len" [.text "a"], call "len" []]
    let x' := call "&" [call "MASS" [.text "a"], call "mAß" []]
    (∀ op ds, call op ds ∈ x.calls → Text.upper op ≠ d.key) ∧ x.build (r.register d) = x.build r ∧
    (r.get? d.name = none ∧ r.get? "LEN" = some m ∧ m.operation = d.operation ∧ m.arity = d.arity ∧
      Renamed "LEN" d.name x x') ∧
    AlikeButName m.name d.name (x.build (r.register d)) (x'.build (r.register d)) := by
  intro r d m x x'
  have hunused : ∀ op ds, call op ds ∈ x.calls → Text.upper op ≠ d.key := by
    intro op ds hmem
    have hop : op ∈ ["Len", "len", "&"] := by
      simp only [x, calls, callsAll, List.mem_append, List.mem_cons, call.injEq] at hmem
      grind
    have hkeys : ∀ op ∈ ["Len", "len", "&"], Text.upper op ≠ d.key := by decide +kernel
    exact hkeys op hop
  have hnew : r.get? d.name = none := by decide +kernel
  have hold : r.get? "LEN" = some m := by decide +kernel
  have hrenamed : Renamed "LEN" d.name x x' := by
    refine .kept "&" (.cons (.replaced ?_ ?_ (.cons (.text "a") .nil))
      (.cons (.replaced ?_ ?_ .nil) .nil)) <;> decide +kernel
  obtain ⟨hunchanged, halias⟩ := registration_is_local r d
  have halike := (halias "LEN" m hnew hold rfl rfl x x' hrenamed).1
  exact ⟨hunused, hunchanged x hunused, ⟨hnew, hold, rfl, rfl, hrenamed⟩, halike⟩

end Description
end SheetFormula

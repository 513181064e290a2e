import SheetFormula.Proofs.Description.Levels
import SheetFormula.Proofs.Reduction.Events

/-! Expressions that are loaded from a text. The limit on the nesting of JSON is one on their levels, low
enough for any usual limit of a compilation; all numbers of JSON are finite, and calls, which are built by
arity, have no empty lists. So a field without a name is the only thing left that a compilation of
what is loaded can fail for. -/

namespace SheetFormula

theorem Description.parse_eq_ok {source : String} {d : Description} (h : parse source = .ok d) :
    ∃ v rest, Json.read source.toList = .ok (v, rest) ∧ v.describe? = some d := by
  unfold parse at h
  split at h
  next => cases h
  next v rest hread =>
    split at h
    next => cases h
    next d' hdescribe =>
      split at h <;> cases h
      exact ⟨v, rest, hread, hdescribe⟩

theorem Description.within_of_parse_eq_ok {source : String} {d : Description}
    (h : parse source = .ok d) : d.Within 64 := by
  obtain ⟨v, rest, hread, hdescribe⟩ := parse_eq_ok h
  have hnesting : Json.nestingLimit = 2 * 63 + 1 := rfl
  have hv := Json.within_of_read_eq_ok hread
  rw [hnesting] at hv
  exact Json.within_of_describe? hv hdescribe

/-- What is loaded with the standard registry is what the text describes, but for the case of names. -/
theorem Registry.load_standard_eq_ok_iff {source : String} {e : Expr} :
    Registry.standard.load source = .ok e ↔
      ∃ d, Description.parse source = .ok d ∧ e.Describable ∧ d.upper = e.describe := by
  rw [load]
  cases Description.parse source with
  | error err => simp
  | ok d => simp [mapError_eq_ok_iff, d.buildsDescribed e]

namespace Expr

theorem ownFault?_eq_some_iff_of_fits {e : Expr} {err : CompileError} (hcall : e.FitsCall)
    (hnumber : e.FitsNumber) : e.ownFault? = some err ↔ e = field "" ∧ err = .missing .fieldName := by
  cases e with
  | number value => simp [ownFault?, hnumber value rfl]
  | field name =>
      by_cases hname : name = ""
      · have hown : (field name).ownFault? = some (.missing .fieldName) := by simp [ownFault?, hname]
        rw [hown, hname, Option.some.injEq, and_iff_right rfl]
        exact eq_comm
      · simp [ownFault?, hname]
  | join es | concatenate es | arrayJoin es _ | logical _ es | switch _ es =>
      cases es with
      | nil => exact absurd rfl hcall
      | cons => simp [ownFault?]
  | _ => simp [ownFault?]

section Fits

variable {e : Expr} {limit : Nat} (hheight : e.height ≤ limit)
  (hfits : ∀ c ∈ e.occurrences, c.FitsCall ∧ c.FitsNumber)
include hheight hfits

/-- The one fault that an entry can have. -/
theorem fault?_eq_some_iff_of_fits {x : Entry} {err : CompileError}
    (hx : x ∈ (Subject.expr e).entries 1) :
    x.fault? limit = some err ↔ x.subject = .expr (field "") ∧ err = .missing .fieldName := by
  have hlevel : x.level ≤ limit := height_le_iff.mp hheight x hx
  rw [Entry.fault?, if_neg (Nat.not_lt.mpr hlevel)]
  cases hsubject : x.subject with
  | branch b => simp [Subject.ownFault?]
  | expr c =>
      obtain ⟨hcall, hnumber⟩ := hfits c (mem_occurrences_iff.mpr ⟨x, hx, hsubject⟩)
      rw [Subject.ownFault?, ownFault?_eq_some_iff_of_fits hcall hnumber, Subject.expr.injEq]

theorem compile_eq_error_iff_of_fits {err : CompileError} :
    e.compile limit = .error err ↔ field "" ∈ e.occurrences ∧ err = .missing .fieldName := by
  have hfault : ∀ {err}, ((Subject.expr e).entries 1).findSome? (Entry.fault? limit) = some err →
      field "" ∈ e.occurrences ∧ err = .missing .fieldName := by
    intro err h
    obtain ⟨x, hx, hfault⟩ := List.exists_of_findSome?_eq_some h
    obtain ⟨hsubject, herr⟩ := (fault?_eq_some_iff_of_fits hheight hfits hx).mp hfault
    exact ⟨mem_occurrences_iff.mpr ⟨x, hx, hsubject⟩, herr⟩
  rw [compile_eq_error_iff]
  refine ⟨hfault, ?_⟩
  rintro ⟨hfield, rfl⟩
  obtain ⟨x, hx, hsubject⟩ := mem_occurrences_iff.mp hfield
  cases h : ((Subject.expr e).entries 1).findSome? (Entry.fault? limit) with
  | some err => rw [(hfault h).2]
  | none =>
      have hnone := List.findSome?_eq_none_iff.mp h x hx
      rw [(fault?_eq_some_iff_of_fits hheight hfits hx).mpr ⟨hsubject, rfl⟩] at hnone
      cases hnone

theorem compile_succeeds_iff_of_fits :
    (∃ formula, e.compile limit = .ok formula) ↔ field "" ∉ e.occurrences := by
  cases h : e.compile limit with
  | ok formula =>
      refine iff_of_true ⟨formula, rfl⟩ fun hfield => ?_
      have herror := (compile_eq_error_iff_of_fits hheight hfits).mpr ⟨hfield, rfl⟩
      rw [h] at herror
      cases herror
  | error err =>
      have hfield := (compile_eq_error_iff_of_fits hheight hfits).mp h
      exact iff_of_false nofun fun habsent => habsent hfield.1

end Fits

end Expr

/-- What is loaded with the standard registry has 64 levels at most, finite numbers and no empty lists. So
under every limit on nesting that is not below this, the default one among them, it compiles if and only
if no field in it has the empty name, and otherwise fails for such a field. -/
theorem Registry.loaded_fails_for_empty_name_only {source : String} {e : Expr}
    (h : Registry.standard.load source = .ok e) :
    e.height ≤ 64 ∧
    (∀ c ∈ e.occurrences, c.FitsCall ∧ ∀ value, c = .number value → value.isFinite = true) ∧
    64 ≤ defaultLimit ∧
    ∀ limit, 64 ≤ limit →
      ((∃ formula, e.compile limit = .ok formula) ↔ .field "" ∉ e.occurrences) ∧
      (∀ err, e.compile limit = .error err ↔
        .field "" ∈ e.occurrences ∧ err = .missing .fieldName) := by
  obtain ⟨d, hparse, hdescribable, hupper⟩ := load_standard_eq_ok_iff.mp h
  have hwithin : e.describe.Within 64 := by
    rw [← hupper]
    exact (Description.within_of_parse_eq_ok hparse).upper
  obtain ⟨hheight, hnumbers⟩ := e.bounded_of_within_describe hwithin
  have hfits : ∀ c ∈ e.occurrences, c.FitsCall ∧ c.FitsNumber := fun c hc =>
    ⟨Expr.Everywhere.iff_occurrences.mp hdescribable c hc, Expr.Everywhere.iff_occurrences.mp hnumbers c hc⟩
  refine ⟨hheight, hfits, by decide, fun limit hlimit => ?_⟩
  have hlevels : e.height ≤ limit := Nat.le_trans hheight hlimit
  exact ⟨Expr.compile_succeeds_iff_of_fits hlevels hfits,
    fun err => Expr.compile_eq_error_iff_of_fits hlevels hfits⟩

theorem Registry.loaded_switch_fails_for_empty_name :
    let source := "\x7b\"op\": \"SWITCH\", \"args\": [\x7b\"number\": 1.5\x7d, " ++
      "\x7b\"op\": \"CASE\", \"args\": [\x7b\"field\": \"\"\x7d]\x7d]\x7d"
    let e : Expr := .switch (.number (.ofBits 0x3FF8000000000000)) [.otherwise (.field "")]
    Registry.standard.load source = .ok e ∧ e.compile defaultLimit = .error (.missing .fieldName) ∧
      e.height ≤ 64 ∧
      (∀ c ∈ e.occurrences, c.FitsCall ∧ ∀ value, c = .number value → value.isFinite = true) ∧
      64 ≤ defaultLimit ∧
      ∀ limit, 64 ≤ limit →
        ((∃ formula, e.compile limit = .ok formula) ↔ .field "" ∉ e.occurrences) ∧
        (∀ err, e.compile limit = .error err ↔
          .field "" ∈ e.occurrences ∧ err = .missing .fieldName) := by
  intro source e
  let d : Description := .call "SWITCH" [.number (.ofBits 0x3FF8000000000000), .call "CASE" [.field ""]]
  have hparse : Description.parse source = .ok d := by decide +kernel
  have hbranch : (Expr.branch (.otherwise (.field ""))).describe = .call "CASE" [.field ""] := by
    rw [Expr.describe_eq_call rfl]
    simp [Expr.arguments, Expr.children, Branch.children, Expr.describe, Expr.operation, Operation.name]
  have hdescribe : e.describe = d := by
    rw [Expr.describe_eq_call rfl]
    simp [e, d, Expr.arguments, Expr.describe, hbranch, Expr.operation, Operation.name]
  have hdescribable : e.Describable := by
    rw [Expr.Describable, Expr.Everywhere.iff_occurrences]
    simp [e, Expr.occurrences_eq, Expr.children, Branch.children, Expr.FitsCall]
  have hupper : d.upper = e.describe := by rw [← hdescribe, e.upper_describe]
  have hload : Registry.standard.load source = .ok e :=
    load_standard_eq_ok_iff.mpr ⟨d, hparse, hdescribable, hupper⟩
  exact ⟨hload, rfl, loaded_fails_for_empty_name_only hload⟩

end SheetFormula

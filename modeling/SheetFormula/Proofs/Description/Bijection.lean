import SheetFormula.Proofs.Description.Application

/-! Descriptions and the expressions they build. A description builds an expression if and only if it is
the description of that expression, but for the case of names; this is an induction over descriptions,
with the application of one function as its step. Which expressions there are descriptions of depends
on their shape alone. -/

namespace SheetFormula

/-- The names in the description of an expression are in upper case already. -/
theorem Expr.upper_describe (e : Expr) : e.describe.upper = e.describe := by
  cases hliteral : e.isLiteral with
  | true =>
      cases e with
      | text | number | field => rw [describe, Description.upper]
      | _ => cases hliteral
  | false =>
      have harguments : (e.arguments.map describe).map Description.upper = e.arguments.map describe := by
        rw [List.map_map]
        exact List.map_congr_left fun a ha => a.upper_describe
      rw [describe_eq_call hliteral, Description.upper, e.operation.upper_name, harguments]
termination_by sizeOf e
decreasing_by exact sizeOf_lt_of_mem_arguments ha

namespace Description

/-- Whether a description builds just the expressions that it describes, but for the case of names. -/
def BuildsDescribed (d : Description) : Prop :=
  ∀ e, d.build .standard = .ok e ↔ e.Describable ∧ d.upper = e.describe

theorem buildAll_eq_ok_iff {ds : List Description} {es : List Expr}
    (h : ∀ d ∈ ds, d.BuildsDescribed) :
    buildAll .standard ds = .ok es ↔
      (∀ e ∈ es, e.Describable) ∧ ds.map upper = es.map Expr.describe := by
  induction ds generalizing es with
  | nil => cases es <;> simp [buildAll]
  | cons d ds ih =>
      obtain ⟨hd, hds⟩ := List.forall_mem_cons.mp h
      rw [buildAll, bind_eq_ok_iff]
      constructor
      · rintro ⟨e, he, hrest⟩
        obtain ⟨es, hes, hrest⟩ := bind_eq_ok_iff.mp hrest
        cases hrest
        obtain ⟨he, hupper⟩ := (hd e).mp he
        obtain ⟨hes, huppers⟩ := (ih hds).mp hes
        refine ⟨List.forall_mem_cons.mpr ⟨he, hes⟩, ?_⟩
        rw [List.map_cons, hupper, huppers, List.map_cons]
      · rintro ⟨hes, hupper⟩
        cases es with
        | nil => cases hupper
        | cons e es =>
            obtain ⟨he, hes⟩ := List.forall_mem_cons.mp hes
            obtain ⟨hupper, huppers⟩ := List.cons_eq_cons.mp hupper
            have hbuild := (hd e).mpr ⟨he, hupper⟩
            have hbuilds := (ih hds).mpr ⟨hes, huppers⟩
            exact ⟨e, hbuild, bind_eq_ok_iff.mpr ⟨es, hbuilds, rfl⟩⟩

theorem buildsDescribed_literal {d : Description} {l : Expr} (hliteral : l.isLiteral = true)
    (hbuild : d.build .standard = .ok l) (hupper : d.upper = l.describe) : d.BuildsDescribed := by
  intro e
  rw [hbuild, hupper, Except.ok.injEq]
  constructor
  · rintro rfl
    cases l with
    | text | number | field => exact ⟨Expr.describable_iff_children.mpr ⟨trivial, nofun⟩, rfl⟩
    | _ => cases hliteral
  · rintro ⟨-, h⟩
    cases he : e.isLiteral with
    | false =>
        rw [Expr.describe_eq_call he] at h
        cases l with
        | text | number | field => simp [Expr.describe] at h
        | _ => cases hliteral
    | true =>
        cases l <;> cases e <;> simp_all [Expr.isLiteral, Expr.describe]

theorem buildsDescribed_call (op : String) {ds : List Description}
    (h : ∀ d ∈ ds, d.BuildsDescribed) : (call op ds).BuildsDescribed := by
  intro e
  rw [build, bind_eq_ok_iff, upper, Expr.describable_iff_arguments]
  constructor
  · rintro ⟨es, hes, hbuild⟩
    obtain ⟨hliteral, hname, rfl, hfits⟩ := Registry.build_standard_eq_ok_iff.mp hbuild
    obtain ⟨hdescribable, hupper⟩ := (buildAll_eq_ok_iff h).mp hes
    exact ⟨⟨hfits, hdescribable⟩, by rw [Expr.describe_eq_call hliteral, hname, hupper]⟩
  · rintro ⟨⟨hfits, hdescribable⟩, hdescribe⟩
    have hliteral : e.isLiteral = false := by
      cases e with
      | text | number | field => simp [Expr.describe] at hdescribe
      | _ => rfl
    rw [Expr.describe_eq_call hliteral] at hdescribe
    obtain ⟨hname, hupper⟩ := call.inj hdescribe
    exact ⟨e.arguments, (buildAll_eq_ok_iff h).mpr ⟨hdescribable, hupper⟩,
      Registry.build_standard_eq_ok_iff.mpr ⟨hliteral, hname.symm, rfl, hfits⟩⟩

theorem buildsDescribed (d : Description) : d.BuildsDescribed := by
  induction d using Description.induction with
  | text value =>
      have hdescribe : (Expr.text value).describe = .text value := by rw [Expr.describe]
      exact buildsDescribed_literal rfl (by rw [build]) (by rw [upper, hdescribe])
  | number value =>
      have hdescribe : (Expr.number value).describe = .number value := by rw [Expr.describe]
      exact buildsDescribed_literal rfl (by rw [build]) (by rw [upper, hdescribe])
  | field name =>
      have hdescribe : (Expr.field name).describe = .field name := by rw [Expr.describe]
      exact buildsDescribed_literal rfl (by rw [build]) (by rw [upper, hdescribe])
  | call op ds ih => exact buildsDescribed_call op ih

/-- Up to the case of names, building is a bijection from the descriptions that build to the
describable expressions. Each of these is built from its own description; what is built is describable,
and built from nothing but its description; and two descriptions build the same expression if and only
if one of them builds and they are equal but for the case of names. -/
theorem build_standard_bijective :
    (∀ e : Expr, e.describe.build .standard = .ok e ↔ e.Describable) ∧
    (∀ (d : Description) (e : Expr),
      d.build .standard = .ok e ↔ e.Describable ∧ d.upper = e.describe) ∧
    (∀ d d' : Description, (∃ e, d.build .standard = .ok e ∧ d'.build .standard = .ok e) ↔
      (∃ e, d.build .standard = .ok e) ∧ d.upper = d'.upper) := by
  refine ⟨fun e => ?_, buildsDescribed, fun d d' => ?_⟩
  · rw [buildsDescribed e.describe e]
    exact and_iff_left e.upper_describe
  · constructor
    · rintro ⟨e, h, h'⟩
      have hupper := ((buildsDescribed d e).mp h).2
      have hupper' := ((buildsDescribed d' e).mp h').2
      exact ⟨⟨e, h⟩, hupper.trans hupper'.symm⟩
    · rintro ⟨⟨e, h⟩, hupper⟩
      obtain ⟨hdescribable, hdescribe⟩ := (buildsDescribed d e).mp h
      exact ⟨e, h, (buildsDescribed d' e).mpr ⟨hdescribable, hupper.symm.trans hdescribe⟩⟩

end Description

end SheetFormula

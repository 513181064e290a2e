import Mathlib.Data.List.Nodup
import SheetFormula.Proofs.Text.Prefix
import SheetFormula.Proofs.Unambiguity.Children
import SheetFormula.Proofs.Unambiguity.Pieces

/-! Telling primary expressions apart. Each lemma compares two formula texts with something behind them
that may follow, and gets from their equality that the expressions are the same and so is what is
behind. A function is told apart by its name and then by its arguments, for which the same is assumed;
a field is not taken for a function because no parenthesis may follow a field. -/

namespace SheetFormula

/-! ### What may follow -/

/-- What may follow a formula text: nothing, a comma or a closing parenthesis. -/
inductive Ends : List Char → Prop where
  | nil : Ends []
  | comma (t : List Char) : Ends (',' :: t)
  | paren (t : List Char) : Ends (')' :: t)

/-- What may follow a part of a join: the next part, or what may follow the join. -/
inductive EndsPart : List Char → Prop where
  | whole {t : List Char} (h : Ends t) : EndsPart t
  | next (t : List Char) : EndsPart (' ' :: '&' :: ' ' :: t)

/-- What may follow a primary expression: an operator too. -/
inductive EndsPrimary : List Char → Prop where
  | whole {t : List Char} (h : Ends t) : EndsPrimary t
  | space (t : List Char) : EndsPrimary (' ' :: t)

theorem EndsPart.endsPrimary {t : List Char} (h : EndsPart t) : EndsPrimary t := by
  cases h with
  | whole h => exact .whole h
  | next t => exact .space _

theorem EndsPrimary.stopsBefore {p : Char → Bool} {t : List Char} (h : EndsPrimary t)
    (hcomma : p ',' = false) (hparen : p ')' = false) (hspace : p ' ' = false) : StopsBefore p t := by
  rcases h with (_ | _ | _) | _
  · simp [StopsBefore]
  · exact stopsBefore_cons.mpr hcomma
  · exact stopsBefore_cons.mpr hparen
  · exact stopsBefore_cons.mpr hspace

theorem not_ends_space (t : List Char) : ¬ Ends (' ' :: t) := by
  intro h
  cases h

theorem not_endsPrimary_open (t : List Char) : ¬ EndsPrimary ('(' :: t) := by
  intro h
  rcases h with (_ | _ | _) | _

namespace Expr

/-- Whether the texts of two expressions, followed by what may follow them, are told apart: they are
equal only if the expressions are the same and so is what follows. -/
def ToldApart (follows : List Char → Prop) (a b : Expr) : Prop :=
  ∀ r s, follows r → follows s → a.chars ++ r = b.chars ++ s → a.Same b ∧ r = s

/-- Whether an expression is told apart from all others. -/
def Told (a : Expr) : Prop := ∀ b : Expr, b.Tidy → ToldApart Ends a b

/-- Whether an expression is told apart from all others as a part of a join. -/
def ToldPart (a : Expr) : Prop :=
  ∀ b : Expr, b.Tidy → b.isJoin = false → ToldApart EndsPart a b

variable {a b : Expr} {r s : List Char}

/-! ### Literals -/

theorem told_text {v w : String} (hv : (text v).Tidy) (hw : (text w).Tidy)
    (h : (text v).chars ++ r = (text w).chars ++ s) : (text v).Same (text w) ∧ r = s := by
  rw [chars_text, chars_text] at h
  simp only [List.cons_append, List.append_assoc, List.nil_append] at h
  obtain ⟨hvw, hrs⟩ := closed_append_inj hv.here.clean hw.here.clean (List.tail_eq_of_cons_eq h)
  rw [String.toList_injective hvw]
  exact ⟨by simp [Same, numEq], hrs⟩

theorem told_number {x y : Binary64} (hx : (number x).Tidy) (hy : (number y).Tidy)
    (hr : EndsPrimary r) (hs : EndsPrimary s)
    (h : (number x).chars ++ r = (number y).chars ++ s) : (number x).Same (number y) ∧ r = s := by
  rw [chars_number, chars_number] at h
  have hx := isFinite_of_tidy hx
  have hy := isFinite_of_tidy hy
  obtain ⟨hxy, hrs⟩ := run_append_inj (fun _ => Binary64.isNumeral_of_mem_text hx)
    (fun _ => Binary64.isNumeral_of_mem_text hy) (hr.stopsBefore rfl rfl rfl)
    (hs.stopsBefore rfl rfl rfl) h
  have hsame := Binary64.numEq_of_text_eq hx hy (String.toList_injective hxy)
  exact ⟨by rwa [Same, numEq], hrs⟩

theorem brace_notMem_of_tidy {name : String} (h : (field name).Tidy) (hspace : ' ' ∈ name.toList) :
    '\x7d' ∉ name.toList := by
  rcases h.here.clean with hword | hbraced
  · exact absurd hspace (space_notMem_of_isWord hword)
  · exact hbraced.2.2

theorem told_braced {v w : String} (hv : (field v).Tidy) (hw : (field w).Tidy)
    (hvspace : ' ' ∈ v.toList) (hwspace : ' ' ∈ w.toList)
    (h : (field v).chars ++ r = (field w).chars ++ s) : (field v).Same (field w) ∧ r = s := by
  rw [chars_braced hvspace, chars_braced hwspace] at h
  simp only [List.cons_append, List.append_assoc, List.nil_append] at h
  obtain ⟨hvw, hrs⟩ := closed_append_inj (brace_notMem_of_tidy hv hvspace)
    (brace_notMem_of_tidy hw hwspace) (List.tail_eq_of_cons_eq h)
  rw [String.toList_injective hvw]
  exact ⟨by simp [Same, numEq], hrs⟩

/-! ### Functions -/

theorem children_eq_nil_iff (ha : a.Tidy) (hcall : a.isCall = true) :
    a.children = [] ↔ ∃ c, a.operation = .constant c := by
  have hnonempty : a.children = [] → ∃ c, a.operation = .constant c := by
    intro hnil
    have hfaultless := ha.here.faultless
    cases a with
    | text | number | field | join | arrayJoin | arrayJoinOf | branch | operator => cases hcall
    | constant c => exact ⟨c, rfl⟩
    | concatenate es | logical _ es =>
        cases hnil
        cases hfaultless
    | _ => cases hnil
  refine ⟨hnonempty, ?_⟩
  rintro ⟨c, hop⟩
  cases a <;> cases hop
  rfl

theorem told_call (ha : a.Tidy) (hb : b.Tidy) (hca : a.isCall = true) (hcb : b.isCall = true)
    (hop : a.operation = b.operation) (ih : ∀ c ∈ a.children, c.Told)
    (h : a.inside ++ r = b.inside ++ s) : a.Same b ∧ r = s := by
  rw [inside_call hca, inside_call hcb, List.append_assoc, List.append_assoc] at h
  by_cases hnil : a.children = []
  · have hnil' : b.children = [] := by
      rw [children_eq_nil_iff hb hcb, ← hop]
      exact (children_eq_nil_iff ha hca).mp hnil
    rw [hnil, hnil'] at h
    refine ⟨same_of_call hca ha.here.clean hb.here.clean hop ?_, List.tail_eq_of_cons_eq h⟩
    rw [hnil, hnil']
    exact .nil
  · have hnil' : b.children ≠ [] := by
      rw [ne_eq, children_eq_nil_iff hb hcb, ← hop]
      exact mt (children_eq_nil_iff ha hca).mpr hnil
    have hend : ∀ t, (∃ u, t = ')' :: u) → Ends t := by
      rintro t ⟨u, rfl⟩
      exact .paren u
    have hcomma : ∀ t, ¬ ∃ u, [',', ' '] ++ t = ')' :: u := by
      rintro t ⟨u, hu⟩
      cases hu
    obtain ⟨hchildren, hrest⟩ := separated_append_inj Ends (fun t => ∃ u, t = ')' :: u)
      (fun t => .comma _) hend hcomma
      (fun x hx y hy r s hr hs heq => ih x hx y (hb.of_mem_children hy) r s hr hs heq)
      hnil hnil' ⟨r, rfl⟩ ⟨s, rfl⟩ h
    exact ⟨same_of_call hca ha.here.clean hb.here.clean hop hchildren, List.tail_eq_of_cons_eq hrest⟩

/-- A quoted text is told apart whatever follows it, and the text by itself. -/
theorem told_quoted (ha : a.Told) (hb : b.Tidy)
    (h : Json.quotedChars a.chars ++ r = Json.quotedChars b.chars ++ s) : a.Same b ∧ r = s := by
  obtain ⟨hchars, hrs⟩ := Json.quotedChars_append_inj h
  have hsame := (ha b hb [] [] .nil .nil (by rw [hchars])).1
  exact ⟨hsame, hrs⟩

/-- The separator of an array join, up to the end of the join. -/
theorem separator_append_inj {v w : String} (hv : '"' ∉ v.toList) (hw : '"' ∉ w.toList)
    (h : ',' :: ' ' :: '"' :: (v.toList ++ ['"', ')']) ++ r =
      ',' :: ' ' :: '"' :: (w.toList ++ ['"', ')']) ++ s) : v = w ∧ r = s := by
  simp only [List.cons_append, List.append_assoc, List.nil_append, List.cons.injEq, true_and] at h
  obtain ⟨hvw, hrs⟩ := closed_append_inj hv hw h
  exact ⟨String.toList_injective hvw, List.tail_eq_of_cons_eq hrs⟩

theorem told_arrayJoin {as bs : List Expr} {v w : String} (ha : (arrayJoin as v).Tidy)
    (hb : (arrayJoin bs w).Tidy) (ih : ∀ c ∈ as, c.Told)
    (h : (arrayJoin as v).inside ++ r = (arrayJoin bs w).inside ++ s) :
    (arrayJoin as v).Same (arrayJoin bs w) ∧ r = s := by
  have hne {es : List Expr} {u : String} (h : (arrayJoin es u).Tidy) : es ≠ [] := by
    rintro rfl
    cases h.here.faultless
  rw [inside, inside] at h
  simp only [List.cons_append, List.append_assoc, List.cons.injEq, true_and] at h
  have hcomma : ∀ t, ¬ ∃ u, [','] ++ t = ']' :: u := by
    rintro t ⟨u, hu⟩
    cases hu
  obtain ⟨hparts, hrest⟩ := separated_append_inj (fun _ => True) (fun t => ∃ u, t = ']' :: u)
    (fun _ => trivial) (fun _ _ => trivial) hcomma
    (fun x hx y hy r s _ _ heq => told_quoted (ih x hx) (hb.of_mem_children hy) heq)
    (hne ha) (hne hb) ⟨_, rfl⟩ ⟨_, rfl⟩ h
  obtain ⟨hvw, hrs⟩ := separator_append_inj ha.here.clean hb.here.clean (by simpa using hrest)
  have hall : allNumEq as bs = true := allNumEq_of_forall₂ hparts
  refine ⟨?_, hrs⟩
  rw [Same, numEq, hall, hvw]
  simp

theorem told_arrayJoinOf {v w : String} (ha : (arrayJoinOf a v).Tidy) (hb : (arrayJoinOf b w).Tidy)
    (ih : a.Told) (h : (arrayJoinOf a v).inside ++ r = (arrayJoinOf b w).inside ++ s) :
    (arrayJoinOf a v).Same (arrayJoinOf b w) ∧ r = s := by
  rw [inside, inside, List.append_assoc, List.append_assoc] at h
  obtain ⟨hpart, hrest⟩ := told_quoted ih (hb.of_mem_children List.mem_cons_self) h
  obtain ⟨hvw, hrs⟩ := separator_append_inj ha.here.clean hb.here.clean hrest
  refine ⟨?_, hrs⟩
  rw [Same, numEq, hpart, hvw]
  simp

/-- Told apart by what stands in the parentheses, given that the functions are the same. -/
theorem told_inside (ha : a.Tidy) (hb : b.Tidy) (hprimary : a.isPrimary = true)
    (hliteral : a.isLiteral = false) (hop : a.operation = b.operation)
    (ih : ∀ c ∈ a.children, c.Told) (h : a.inside ++ r = b.inside ++ s) : a.Same b ∧ r = s := by
  have hcall (hca : a.isCall = true) : a.Same b ∧ r = s :=
    told_call ha hb hca (isCall_of_operation_eq hop hca) hop ih h
  cases a with
  | text | number | field => cases hliteral
  | join | branch | operator => cases hprimary
  | arrayJoin as v =>
      cases b <;> cases hop
      · exact told_arrayJoin ha hb ih h
      · -- A list in JSON begins with a bracket, a text with a quote.
        cases h
  | arrayJoinOf part v =>
      cases b <;> cases hop
      · cases h
      · exact told_arrayJoinOf ha hb (ih part List.mem_cons_self) h
  | _ => exact hcall rfl

/-! ### Words -/

/-- A primary expression that begins with a word is a field or a function. -/
theorem word_cases (ha : a.Tidy) (hprimary : a.isPrimary = true) (hword : a.opening = .word) :
    (∃ name, a = field name ∧ a.chars = name.toList ∧ isWord name.toList = true) ∨
      a.isLiteral = false ∧ a.chars = a.operation.name.toList ++ '(' :: a.inside := by
  cases a with
  | text | number => cases hword
  | field name =>
      by_cases hspace : ' ' ∈ name.toList
      · rw [opening, if_pos hspace] at hword
        cases hword
      · exact Or.inl ⟨name, rfl, chars_named hspace, isWord_of_tidy_field ha hspace⟩
  | _ => exact Or.inr ⟨rfl, chars_function hprimary rfl⟩

theorem word_append_inj {v w r s : List Char} (hv : isWord v = true) (hw : isWord w = true)
    (hr : StopsBefore isWordChar r) (hs : StopsBefore isWordChar s) (h : v ++ r = w ++ s) :
    v = w ∧ r = s :=
  run_append_inj (fun _ => isWordChar_of_mem hv) (fun _ => isWordChar_of_mem hw) hr hs h

theorem operation_eq_of_name_eq {op op' : Operation} (h : op.name = op'.name) : op = op' := by
  have hnodup : (Operation.all.map Operation.name).Nodup := by decide +kernel
  exact List.inj_on_of_nodup_map hnodup op.mem_all op'.mem_all h

theorem told_word (ha : a.Tidy) (hb : b.Tidy) (hpa : a.isPrimary = true) (hpb : b.isPrimary = true)
    (hwa : a.opening = .word) (hwb : b.opening = .word) (ih : ∀ c ∈ a.children, c.Told)
    (hr : EndsPrimary r) (hs : EndsPrimary s) (h : a.chars ++ r = b.chars ++ s) :
    a.Same b ∧ r = s := by
  have hstopr : StopsBefore isWordChar r := hr.stopsBefore rfl rfl rfl
  have hstops : StopsBefore isWordChar s := hs.stopsBefore rfl rfl rfl
  have hopen (t : List Char) : StopsBefore isWordChar ('(' :: t) := stopsBefore_cons.mpr rfl
  rcases word_cases ha hpa hwa with ⟨v, rfl, hva, hv⟩ | ⟨hla, hca⟩
  · rcases word_cases hb hpb hwb with ⟨w, rfl, hwb, hw⟩ | ⟨hlb, hcb⟩
    · rw [hva, hwb] at h
      obtain ⟨hvw, hrs⟩ := word_append_inj hv hw hstopr hstops h
      rw [String.toList_injective hvw]
      exact ⟨by simp [Same, numEq], hrs⟩
    · rw [hva, hcb, List.append_assoc] at h
      obtain ⟨-, hrs⟩ := word_append_inj hv (isWord_name hpb) hstopr (hopen _) h
      exact absurd (hrs ▸ hr) (not_endsPrimary_open _)
  · rcases word_cases hb hpb hwb with ⟨w, rfl, hwb, hw⟩ | ⟨hlb, hcb⟩
    · rw [hca, hwb, List.append_assoc] at h
      obtain ⟨-, hrs⟩ := word_append_inj (isWord_name hpa) hw (hopen _) hstops h
      exact absurd (hrs ▸ hs) (not_endsPrimary_open _)
    · rw [hca, hcb, List.append_assoc, List.append_assoc] at h
      obtain ⟨hname, hrest⟩ := word_append_inj (isWord_name hpa) (isWord_name hpb) (hopen _) (hopen _) h
      have hop := operation_eq_of_name_eq (String.toList_injective hname)
      exact told_inside ha hb hpa hla hop ih (List.tail_eq_of_cons_eq hrest)

theorem opening_ne_paren (e : Expr) : e.opening ≠ .paren := by
  intro h
  cases e with
  | field name =>
      rw [opening] at h
      split at h <;> cases h
  | _ => cases h

theorem told_primary (ha : a.Tidy) (hb : b.Tidy) (hpa : a.isPrimary = true) (hpb : b.isPrimary = true)
    (ih : ∀ c ∈ a.children, c.Told) : ToldApart EndsPrimary a b := by
  intro r s hr hs h
  obtain ⟨c, t, hac, hca⟩ := exists_chars_eq_cons ha hpa
  obtain ⟨d, u, hbd, hdb⟩ := exists_chars_eq_cons hb hpb
  have hcd : c = d := by
    rw [hac, hbd] at h
    exact List.head_eq_of_cons_eq h
  have hopening : a.opening = b.opening := by rw [← hca, ← hdb, hcd]
  cases hopen : a.opening with
  | numeral =>
      obtain ⟨x, rfl⟩ := eq_number_of_opening hopen
      obtain ⟨y, rfl⟩ := eq_number_of_opening (hopening.symm.trans hopen)
      exact told_number ha hb hr hs h
  | quote =>
      obtain ⟨v, rfl⟩ := eq_text_of_opening hopen
      obtain ⟨w, rfl⟩ := eq_text_of_opening (hopening.symm.trans hopen)
      exact told_text ha hb h
  | brace =>
      obtain ⟨v, rfl, hv⟩ := eq_field_of_opening hopen
      obtain ⟨w, rfl, hw⟩ := eq_field_of_opening (hopening.symm.trans hopen)
      exact told_braced ha hb hv hw h
  | paren => exact absurd hopen (opening_ne_paren a)
  | word => exact told_word ha hb hpa hpb hopen (hopening.symm.trans hopen) ih hr hs h

end Expr
end SheetFormula

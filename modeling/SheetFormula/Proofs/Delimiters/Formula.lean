import SheetFormula.Proofs.Delimiters.Scanner
import SheetFormula.Proofs.Unambiguity.Pieces

/-! Strings and brackets in a formula. If texts, separators and field names bring in no delimiters of their
own, the formula of each expression is closed: the arguments of functions stand in parentheses, arrays
and what they quote in brackets and strings, and only the parts of joins and the operands of operators
stand as they are, closed by themselves. So the arguments of a function are cut at the commas in its
parentheses. -/

namespace SheetFormula
namespace Expr

open Scanner

/-- Whether an expression itself brings in no delimiters: there are no quotes and backslashes in a text or
a separator, neither those nor commas and brackets in a field name, and it is no branch that stands by
itself. -/
def IsPlain : Expr → Prop
  | text value => '"' ∉ value.toList ∧ '\\' ∉ value.toList
  | arrayJoin _ separator | arrayJoinOf _ separator =>
    '"' ∉ separator.toList ∧ '\\' ∉ separator.toList
  | field name => ∀ c ∈ name.toList, c ≠ '\\' ∧ c ∉ delimiters
  | branch _ => False
  | _ => True

variable {e : Expr} {limit : Nat}

theorem isOrdinary_name (op : Operation) : op.name.toList.all isOrdinary = true := by
  have hall : ∀ op ∈ Operation.all, op.name.toList.all isOrdinary = true := by decide +kernel
  exact hall op op.mem_all

theorem isOrdinary_of_isNumeral {c : Char} (h : Binary64.isNumeral c = true) : isOrdinary c = true := by
  have hall : delimiters.all (fun c => !Binary64.isNumeral c) = true := by decide
  refine decide_eq_true fun hc => ?_
  have hnumeral := List.all_eq_true.mp hall c hc
  rw [h] at hnumeral
  cases hnumeral

theorem isOrdinary_of_isPlain_field {name : String} (h : (field name).IsPlain) :
    name.toList.all isOrdinary = true :=
  List.all_eq_true.mpr fun c hc => decide_eq_true (h c hc).2

/-! ### Closed formulas -/

theorem closed_literal (hliteral : e.isLiteral = true) (hplain : e.IsPlain)
    (hfault : e.ownFault? = none) : Closed e.chars := by
  cases e with
  | text value =>
      rw [chars_text]
      exact closed_quoted (content_of_notMem hplain.1 hplain.2)
  | number value =>
      rw [chars_number]
      exact closed_of_isOrdinary (List.all_eq_true.mpr fun c hc =>
        isOrdinary_of_isNumeral (Binary64.isNumeral_of_mem_text (isFinite_of_ownFault? hfault) hc))
  | field name =>
      have hname := closed_of_isOrdinary (isOrdinary_of_isPlain_field hplain)
      by_cases hspace : ' ' ∈ name.toList
      · rw [chars_braced hspace]
        exact hname.balanced.closed_bracketed .brace
      · rw [chars_named hspace]
        exact hname
  | _ => cases hliteral

theorem closed_operandChars (h : Closed e.chars) : Closed e.operandChars := by
  rw [operandChars]
  split
  · exact h.balanced.closed_bracketed .paren
  · exact h

/-- What stands in the parentheses of an array join. -/
theorem balanced_arrayJoin {array separator : List Char} (harray : Closed array)
    (hquote : '"' ∉ separator) (hbackslash : '\\' ∉ separator) :
    Balanced (array ++ ',' :: ' ' :: '"' :: (separator ++ ['"'])) := by
  have hcomma : Balanced [',', ' '] := rfl
  have hseparator := closed_quoted (content_of_notMem hquote hbackslash)
  exact harray.balanced.append (hcomma.append hseparator.balanced)

theorem closed_function {body : List Char} (hprimary : e.isPrimary = true)
    (hliteral : e.isLiteral = false) (hinside : e.inside = body ++ [')']) (hbody : Balanced body) :
    Closed e.chars := by
  rw [chars_function hprimary hliteral, hinside]
  exact (closed_of_isOrdinary (isOrdinary_name e.operation)).append (hbody.closed_bracketed .paren)

/-- The formula of every expression is closed, as the formulas of its children are. -/
theorem closed_chars (e : Expr) (hplain : e.Everywhere IsPlain) {formula : String}
    (h : e.compile limit = .ok formula) : Closed e.chars := by
  induction e using Expr.induction generalizing formula with
  | step e ih =>
      have hchildren : ∀ c ∈ e.children, Closed c.chars := fun c hc =>
        ih c hc (hplain.of_mem_children hc) (compile_of_mem_children h hc)
      have hcall (hshown : e.isCall = true) (hprimary : e.isPrimary = true)
          (hliteral : e.isLiteral = false) : Closed e.chars :=
        closed_function hprimary hliteral (inside_call hshown)
          (.intercalate rfl (List.forall_mem_map.mpr fun c hc => (hchildren c hc).balanced))
      have hhere := hplain.here
      cases e with
      | text | number | field => exact closed_literal rfl hhere (ownFault?_eq_none_of_compile h)
      | branch => cases hhere
      -- The parts of a join and the operands of an operator have no brackets of their own around them.
      | join parts =>
          rw [chars_join]
          exact .intercalate (closed_of_isOrdinary (by decide)) (List.forall_mem_map.mpr hchildren)
      | operator o left right =>
          have hspace : Closed [' '] := closed_of_isOrdinary (by decide)
          have htoken : Closed o.token.toList := closed_of_isOrdinary (isOrdinary_name (.operator o))
          have hleft := closed_operandChars (hchildren left List.mem_cons_self)
          have hright := closed_operandChars (hchildren right (by simp [children]))
          rw [chars_operator]
          exact hleft.append (hspace.append (htoken.append (hspace.append hright)))
      | arrayJoin parts separator =>
          let items := [','].intercalate (parts.map fun p => Json.quotedChars p.chars)
          have hitems : Balanced items :=
            .intercalate rfl (List.forall_mem_map.mpr fun p _ => (closed_quotedChars p.chars).balanced)
          have harray : Closed ('[' :: (items ++ [']'])) := hitems.closed_bracketed .square
          exact closed_function rfl rfl (by simp [inside, items])
            (balanced_arrayJoin harray hhere.1 hhere.2)
      | arrayJoinOf part separator =>
          exact closed_function rfl rfl (by simp [inside])
            (balanced_arrayJoin (closed_quotedChars part.chars) hhere.1 hhere.2)
      | _ => exact hcall rfl rfl rfl

/-! ### Cutting formulas -/

/-- No formula begins with a space. -/
theorem begins_chars (e : Expr) (hplain : e.Everywhere IsPlain) {formula : String}
    (h : e.compile limit = .ok formula) : Begins e.chars := by
  induction e using Expr.induction generalizing formula with
  | step e ih =>
      have hchildren : ∀ c ∈ e.children, Begins c.chars := fun c hc =>
        ih c hc (hplain.of_mem_children hc) (compile_of_mem_children h hc)
      have hfault := ownFault?_eq_none_of_compile h
      have hname : ∀ op ∈ Operation.all, op.name.toList ≠ [] ∧ ' ' ∉ op.name.toList := by decide +kernel
      have hfunction (hprimary : e.isPrimary = true) (hliteral : e.isLiteral = false) :
          Begins e.chars := by
        obtain ⟨hne, hspace⟩ := hname e.operation e.operation.mem_all
        rw [chars_function hprimary hliteral]
        exact (begins_of_notMem hne hspace).append _
      cases e with
      | text value => exact ⟨'"', _, chars_text value, by decide⟩
      | number value =>
          have hfinite := isFinite_of_ownFault? hfault
          rw [chars_number]
          exact begins_of_notMem (Binary64.text_ne_nil hfinite) fun hspace =>
            nomatch Binary64.isNumeral_of_mem_text hfinite hspace
      | field name =>
          by_cases hspace : ' ' ∈ name.toList
          · exact ⟨'\x7b', _, chars_braced hspace, by decide⟩
          · have hne : name.toList ≠ [] := by
              intro hnil
              rw [ownFault?, String.toList_eq_nil_iff.mp hnil] at hfault
              cases hfault
            rw [chars_named hspace]
            exact begins_of_notMem hne hspace
      | branch => cases hplain.here
      | join parts =>
          cases parts with
          | nil => cases hfault
          | cons p parts =>
              rw [chars_join]
              exact (hchildren p List.mem_cons_self).intercalate _ _
      | operator o left right =>
          rw [chars_operator, operandChars]
          refine Begins.append ?_ _
          split
          · exact ⟨'(', _, rfl, by decide⟩
          · exact hchildren left List.mem_cons_self
      | _ => exact hfunction rfl rfl

theorem isPrimary_of_isCall (h : e.isCall = true) : e.isPrimary = true ∧ e.isLiteral = false := by
  cases e with
  | text | number | field | join | arrayJoin | arrayJoinOf | branch | operator => cases h
  | _ => exact ⟨rfl, rfl⟩

/-- Strings and brackets are closed in every formula that texts, separators and names bring no delimiters
into, and no comma stands outside of them. So the formula of each function with arguments, an array
join apart, shows them: in its parentheses there is one space behind every comma of the list, and the
pieces between these commas are the formulas of the children. -/
theorem delimiters_show_arguments {e : Expr} {limit : Nat} {formula : String}
    (hplain : e.Everywhere IsPlain) (h : e.compile limit = .ok formula) :
    Closed formula.toList ∧
    ∀ c ∈ e.occurrences, c.isCall = true → c.children ≠ [] →
      ∃ (inside : List Char) (fragments : List String),
        c.compile limit =
          .ok (String.ofList (c.operation.name.toList ++ '(' :: (inside ++ [')']))) ∧
        List.Forall₂ (fun d fragment => d.compile limit = .ok fragment) c.children fragments ∧
        (outside []).run (c.operation.name.toList ++ ['(']) = outside [.paren] ∧
        (∀ before after, inside = before ++ ',' :: after →
          (outside [.paren]).run before = outside [.paren] →
          ∃ d rest, after = ' ' :: d :: rest ∧ d ≠ ' ') ∧
        (outside [.paren]).cut [.paren] inside = fragments.map String.toList := by
  have hformula : formula = e.formula := (compile_eq_ok_iff.mp h).2
  refine ⟨hformula ▸ closed_chars e hplain h, fun c hc hcall hne => ?_⟩
  obtain ⟨hplain, hcompile⟩ : c.Everywhere IsPlain ∧ c.compile limit = .ok c.formula :=
    of_mem_occurrences (P := fun e => e.Everywhere IsPlain ∧ e.compile limit = .ok e.formula)
      (fun e he c hc => ⟨he.1.of_mem_children hc, compile_of_mem_children he.2 hc⟩)
      ⟨hplain, hformula ▸ h⟩ hc
  have hchildren : ∀ d ∈ c.children, d.Everywhere IsPlain ∧ d.compile limit = .ok d.formula :=
    fun d hd => ⟨hplain.of_mem_children hd, compile_of_mem_children hcompile hd⟩
  have hclosed : ∀ cs ∈ c.children.map chars, Closed cs := List.forall_mem_map.mpr fun d hd =>
    closed_chars d (hchildren d hd).1 (hchildren d hd).2
  have hbegins : ∀ cs ∈ c.children.map chars, Begins cs := List.forall_mem_map.mpr fun d hd =>
    begins_chars d (hchildren d hd).1 (hchildren d hd).2
  obtain ⟨hprimary, hliteral⟩ := isPrimary_of_isCall hcall
  have hchars : c.formula = String.ofList (c.operation.name.toList ++
      '(' :: ([',', ' '].intercalate (c.children.map chars) ++ [')'])) := by
    rw [← inside_call hcall, ← chars_function hprimary hliteral, chars, String.ofList_toList]
  have hname := closed_of_isOrdinary (isOrdinary_name c.operation)
  refine ⟨[',', ' '].intercalate (c.children.map chars), c.children.map Expr.formula, ?_,
    forall₂_compile_children hcompile, ?_, ?_, ?_⟩
  · rw [hcompile, hchars]
  · rw [run_append, hname.balanced.run_eq]
    rfl
  · exact fun before after => space_of_intercalate hclosed hbegins
  · rw [cut_intercalate (by simpa using hne) hclosed, List.map_map]
    rfl

/-- A default first, a field in braces, an array join in another one and a join of two parts, the second of
them a join again. -/
theorem delimiters_show_arguments_switch :
    let e : Expr := .switch (.join [.field "a b"])
      [.otherwise (.arrayJoin [.arrayJoinOf (.text ",(") "]", .field "x"] ", "),
        .when (.operator .less (.operator .add (.field "x") (.field "y")) (.constant .blank))
          (.join [.text "(", .join [.text ","]])]
    let formula := "SWITCH(\x7ba b\x7d, ARRAYJOIN([\"ARRAYJOIN(\\\"\\\\\\\",(\\\\\\\"\\\", \\\"]\\\")\",\"x\"], " ++
      "\", \"), (x + y) < BLANK(), \"(\" & \",\")"
    e.Everywhere IsPlain ∧ e.compile 5 = .ok formula ∧ e.isCall = true ∧ e.children ≠ [] ∧
      Closed formula.toList ∧ ∃ (inside : List Char) (fragments : List String),
        e.compile 5 = .ok (String.ofList (e.operation.name.toList ++ '(' :: (inside ++ [')']))) ∧
        List.Forall₂ (fun d fragment => d.compile 5 = .ok fragment) e.children fragments ∧
        (outside []).run (e.operation.name.toList ++ ['(']) = outside [.paren] ∧
        (∀ before after, inside = before ++ ',' :: after →
          (outside [.paren]).run before = outside [.paren] →
          ∃ d rest, after = ' ' :: d :: rest ∧ d ≠ ' ') ∧
        (outside [.paren]).cut [.paren] inside = fragments.map String.toList := by
  intro e formula
  have hplain : e.Everywhere IsPlain := by
    rw [Everywhere.iff_occurrences]
    simp [e, occurrences_eq, children, Branch.children, IsPlain, delimiters]
  have hcompile : e.compile 5 = .ok formula := rfl
  obtain ⟨hclosed, hcalls⟩ := delimiters_show_arguments hplain hcompile
  have hroot : e ∈ e.occurrences := by
    rw [occurrences_eq]
    exact List.mem_cons_self
  exact ⟨hplain, hcompile, rfl, by simp [e, children], hclosed, hcalls e hroot rfl (by simp [e, children])⟩

end Expr
end SheetFormula

import SheetFormula.Proofs.Text.Quoted
import SheetFormula.Proofs.Unambiguity.Clean

/-! The pieces of a formula text, as lists of characters. The first character of a formula text says which
kind of piece it begins with, and that kind how the piece goes on. -/

namespace SheetFormula

/-! ### What a formula text begins with -/

inductive Opening where
  | numeral | quote | brace | paren | word
  deriving DecidableEq

/-- What a formula text begins with, by its first character. -/
def Opening.of (c : Char) : Opening :=
  if Binary64.isNumeral c then numeral
  else if c = '"' then quote
  else if c = '\x7b' then brace
  else if c = '(' then paren
  else word

theorem Opening.of_isNumeral {c : Char} (h : Binary64.isNumeral c = true) : of c = .numeral := by
  rw [of, if_pos h]

theorem Opening.of_isWordStart {c : Char} (h : isWordStart c = true) : of c = .word := by
  have hne (d : Char) (hd : isWordStart d = false) : c ≠ d := by
    intro hcd
    rw [hcd, hd] at h
    cases h
  have hdigit : c.isDigit = false := by
    rw [Bool.eq_false_iff, ne_eq, Char.isDigit_iff_toNat]
    rintro ⟨hmin, hmax⟩
    have hall : ∀ n < 58, 48 ≤ n → isWordStart (Char.ofNat n) = false := by decide
    have hstart := hall c.toNat (Nat.lt_succ_of_le hmax) hmin
    rw [Char.ofNat_toNat, h] at hstart
    cases hstart
  have hnumeral : Binary64.isNumeral c = false := by
    simp [Binary64.isNumeral, hdigit, hne '.' rfl, hne '-' rfl]
  simp [of, hnumeral, hne '"' rfl, hne '\x7b' rfl, hne '(' rfl]

namespace Expr

def chars (e : Expr) : List Char := e.formula.toList

/-- Whether the formula text is one piece, without spaces around an operator or between parts. -/
def isPrimary : Expr → Bool
  | join _ | branch _ | operator _ _ _ => false
  | _ => true

/-- What the formula text of a primary expression begins with. -/
def opening : Expr → Opening
  | text _ => .quote
  | number _ => .numeral
  | field name => if ' ' ∈ name.toList then .brace else .word
  | _ => .word

theorem eq_text_of_opening {e : Expr} (h : e.opening = .quote) : ∃ value, e = text value := by
  cases e with
  | text value => exact ⟨value, rfl⟩
  | field name =>
      rw [opening] at h
      split at h <;> cases h
  | _ => cases h

theorem eq_number_of_opening {e : Expr} (h : e.opening = .numeral) : ∃ value, e = number value := by
  cases e with
  | number value => exact ⟨value, rfl⟩
  | field name =>
      rw [opening] at h
      split at h <;> cases h
  | _ => cases h

theorem eq_field_of_opening {e : Expr} (h : e.opening = .brace) :
    ∃ name, e = field name ∧ ' ' ∈ name.toList := by
  cases e with
  | field name =>
      rw [opening] at h
      split at h
      · exact ⟨name, rfl, ‹_›⟩
      · cases h
  | _ => cases h

/-! ### The characters of each kind of expression -/

theorem chars_text (value : String) : (text value).chars = '"' :: (value.toList ++ ['"']) := by
  simp [chars, formula, Fragment.text]

theorem chars_number (value : Binary64) : (number value).chars = value.text.toList := by
  rw [chars, formula]

theorem chars_braced {name : String} (h : ' ' ∈ name.toList) :
    (field name).chars = '\x7b' :: (name.toList ++ ['\x7d']) := by
  simp [chars, formula, Fragment.field, h]

theorem chars_named {name : String} (h : ' ' ∉ name.toList) : (field name).chars = name.toList := by
  rw [chars, formula, Fragment.field, if_neg h]

theorem toList_intercalate_formula (separator : String) (es : List Expr) :
    (separator.intercalate (es.map formula)).toList =
      separator.toList.intercalate (es.map chars) := by
  rw [String.toList_intercalate, List.map_map]
  rfl

theorem chars_join (parts : List Expr) :
    (join parts).chars = [' ', '&', ' '].intercalate (parts.map chars) := by
  rw [chars, formula, formulas_eq_map, Fragment.join, toList_intercalate_formula]
  rfl

/-- The characters of an expression as an operand. -/
def operandChars (e : Expr) : List Char := if e.isCompound then '(' :: (e.chars ++ [')']) else e.chars

theorem chars_operator (o : Operator) (left right : Expr) :
    (operator o left right).chars =
      left.operandChars ++ ' ' :: (o.token.toList ++ ' ' :: right.operandChars) := by
  have hoperand (e : Expr) : (Fragment.operand e.isCompound e.formula).toList = e.operandChars := by
    rw [Fragment.operand, operandChars]
    split <;> simp [chars]
  simp [chars, formula, Fragment.operator, hoperand]

/-- What stands in the parentheses behind the name of a function, with the closing one. -/
def inside : Expr → List Char
  | arrayJoin parts separator =>
    '[' :: ([','].intercalate (parts.map fun p => Json.quotedChars p.chars) ++
      ']' :: ',' :: ' ' :: '"' :: (separator.toList ++ ['"', ')']))
  | arrayJoinOf part separator =>
    Json.quotedChars part.chars ++ ',' :: ' ' :: '"' :: (separator.toList ++ ['"', ')'])
  | e => [',', ' '].intercalate (e.children.map chars) ++ [')']

theorem inside_call {e : Expr} (h : e.isCall = true) :
    e.inside = [',', ' '].intercalate (e.children.map chars) ++ [')'] := by
  cases e with
  | arrayJoin | arrayJoinOf => cases h
  | _ => rfl

theorem toList_quoteAll (es : List Expr) :
    (Json.quoteAll (es.map formula)).toList =
      '[' :: ([','].intercalate (es.map fun e => Json.quotedChars e.chars) ++ [']']) := by
  rw [Json.toList_quoteAll, List.map_map]
  rfl

theorem toList_arrayJoin (array separator : String) :
    (Fragment.arrayJoin array separator).toList = "ARRAYJOIN".toList ++
      '(' :: (array.toList ++ ',' :: ' ' :: '"' :: (separator.toList ++ ['"', ')'])) := by
  simp [Fragment.arrayJoin]

/-- A function is shown by its name, an opening parenthesis and what stands inside. -/
theorem chars_function {e : Expr} (hprimary : e.isPrimary = true) (hliteral : e.isLiteral = false) :
    e.chars = e.operation.name.toList ++ '(' :: e.inside := by
  have hcall (h : e.isCall = true) : e.chars = e.operation.name.toList ++ '(' :: e.inside := by
    rw [chars, formula_call h, inside_call h, Fragment.call, Fragment.list, String.toList_append,
      String.toList_append, String.toList_append, toList_intercalate_formula]
    simp
  cases e with
  | join | branch | operator => cases hprimary
  | text | number | field => cases hliteral
  | arrayJoin parts separator =>
      rw [chars, formula, formulas_eq_map, toList_arrayJoin, toList_quoteAll, inside]
      simp [operation, Operation.name]
  | arrayJoinOf part separator =>
      rw [chars, formula, toList_arrayJoin, inside]
      simp [operation, Operation.name, Json.quote, chars]
  | _ => exact hcall rfl

/-! ### Words -/

theorem isWordChar_of_isWordStart {c : Char} (h : isWordStart c = true) : isWordChar c = true := by
  rw [isWordStart, Bool.or_eq_true] at h
  show (c.isAlpha || c.isDigit || c == '_') = true
  rcases h with h | h <;> simp [h]

theorem isWordChar_of_mem {cs : List Char} (h : isWord cs = true) {c : Char} (hc : c ∈ cs) :
    isWordChar c = true := by
  cases cs with
  | nil => cases h
  | cons d rest =>
      obtain ⟨hd, hrest⟩ := Bool.and_eq_true_iff.mp h
      rcases List.mem_cons.mp hc with rfl | hc
      · exact isWordChar_of_isWordStart hd
      · exact List.all_eq_true.mp hrest c hc

theorem space_notMem_of_isWord {cs : List Char} (h : isWord cs = true) : ' ' ∉ cs := by
  intro hspace
  cases isWordChar_of_mem h hspace

theorem isWord_name {e : Expr} (hprimary : e.isPrimary = true) :
    isWord e.operation.name.toList = true := by
  have hall : ∀ op ∈ Operation.all, op = .join ∨ (∃ o ∈ Operator.comparisons, op = .operator o) ∨
      (∃ o ∈ Operator.arithmetic, op = .operator o) ∨ isWord op.name.toList = true := by
    decide +kernel
  rcases hall e.operation e.operation.mem_all with h | ⟨o, -, h⟩ | ⟨o, -, h⟩ | h
  · cases e <;> cases h
    cases hprimary
  · cases e <;> cases h
    cases hprimary
  · cases e <;> cases h
    cases hprimary
  · exact h

theorem exists_cons_of_isWord {cs : List Char} (h : isWord cs = true) (r : List Char) :
    ∃ c rest, cs ++ r = c :: rest ∧ Opening.of c = .word := by
  cases cs with
  | nil => cases h
  | cons c rest =>
      exact ⟨c, rest ++ r, rfl, Opening.of_isWordStart (Bool.and_eq_true_iff.mp h).1⟩

theorem isWord_of_tidy_field {name : String} (h : (field name).Tidy) (hspace : ' ' ∉ name.toList) :
    isWord name.toList = true := by
  rcases h.here.clean with hword | hbraced
  · exact hword
  · exact absurd hbraced.1 hspace

theorem isFinite_of_tidy {value : Binary64} (h : (number value).Tidy) : value.isFinite = true :=
  isFinite_of_ownFault? h.here.faultless

/-- The first character of the formula text of a primary expression says what it begins with. -/
theorem exists_chars_eq_cons {e : Expr} (h : e.Tidy) (hprimary : e.isPrimary = true) :
    ∃ c rest, e.chars = c :: rest ∧ Opening.of c = e.opening := by
  have hfunction (hliteral : e.isLiteral = false) (hword : e.opening = .word) :
      ∃ c rest, e.chars = c :: rest ∧ Opening.of c = e.opening := by
    rw [chars_function hprimary hliteral, hword]
    exact exists_cons_of_isWord (isWord_name hprimary) _
  cases e with
  | text value => exact ⟨'"', _, chars_text value, rfl⟩
  | number value =>
      have hfinite := isFinite_of_tidy h
      obtain ⟨c, rest, hcons⟩ := List.exists_cons_of_ne_nil (Binary64.text_ne_nil hfinite)
      have hc : c ∈ value.text.toList := by rw [hcons]; exact List.mem_cons_self
      exact ⟨c, rest, (chars_number value).trans hcons,
        Opening.of_isNumeral (Binary64.isNumeral_of_mem_text hfinite hc)⟩
  | field name =>
      by_cases hspace : ' ' ∈ name.toList
      · rw [opening, if_pos hspace]
        exact ⟨'\x7b', _, chars_braced hspace, rfl⟩
      · rw [opening, if_neg hspace, chars_named hspace]
        have hword := exists_cons_of_isWord (isWord_of_tidy_field h hspace) []
        rwa [List.append_nil] at hword
  | _ => exact hfunction rfl rfl

end Expr
end SheetFormula

import SheetFormula.Json.Quoted

/-! The spellings of a text between quotes. A character stands for itself unless it is the quote, the
backslash or a control character; some characters have a short escape, and every one can be escaped by its
number, in two surrogates where four digits are too few for it. The reader of quoted texts takes all of
these for the character (`unquoted_of_spelled`), and stops behind the closing quote, which is none of
them. -/

namespace SheetFormula
namespace Json

/-! ### Spellings -/

/-- A hexadecimal digit of either case. -/
inductive HexDigit : Nat → Char → Prop where
  | lower {n : Nat} (h : n < 16) : HexDigit n (hexDigit n)
  | upper {n : Nat} (h : n < 16) : HexDigit n (hexDigit n).toUpper

/-- A number in four hexadecimal digits. -/
inductive HexNumber : Nat → List Char → Prop where
  | intro {a b c d : Nat} {w x y z : Char} (ha : HexDigit a w) (hb : HexDigit b x) (hc : HexDigit c y)
      (hd : HexDigit d z) : HexNumber (a * 4096 + b * 256 + c * 16 + d) [w, x, y, z]

/-- The characters with a short escape, and its letter. -/
def shortEscapes : List (Char × Char) :=
  [('"', '"'), ('\\', '\\'), ('/', '/'), ('\x08', 'b'), ('\x0c', 'f'), ('\n', 'n'), ('\r', 'r'),
    ('\t', 't')]

/-- The ways to write a character between quotes. -/
inductive SpelledChar : Char → List Char → Prop where
  | plain {c : Char} (hquote : c ≠ '"') (hbackslash : c ≠ '\\') (hcontrol : ¬ c < ' ') :
      SpelledChar c [c]
  | short {c letter : Char} (h : (c, letter) ∈ shortEscapes) : SpelledChar c ['\\', letter]
  | numeric {c : Char} {digits : List Char} (h : HexNumber c.toNat digits) :
      SpelledChar c ('\\' :: 'u' :: digits)
  | surrogates {c : Char} {high low : Nat} {highs lows : List Char} (hhigh : high < 0x400)
      (hlow : low < 0x400) (hc : c.toNat = 0x10000 + high * 0x400 + low)
      (hhighs : HexNumber (0xD800 + high) highs) (hlows : HexNumber (0xDC00 + low) lows) :
      SpelledChar c ('\\' :: 'u' :: (highs ++ '\\' :: 'u' :: lows))

/-- The ways to write the content of a text, one character after another. -/
inductive SpelledChars : List Char → List Char → Prop where
  | nil : SpelledChars [] []
  | cons {c : Char} {t cs ts : List Char} (h : SpelledChar c cs) (ht : SpelledChars t ts) :
      SpelledChars (c :: t) (cs ++ ts)

/-! ### Control characters -/

def hexDigits : List Char := "0123456789abcdefABCDEF".toList

theorem HexNumber.mem_hexDigits {n : Nat} {digits : List Char} (h : HexNumber n digits) :
    ∀ c ∈ digits, c ∈ hexDigits := by
  have hdigit {n : Nat} {c : Char} (h : HexDigit n c) : c ∈ hexDigits := by
    have hlower : ∀ n < 16, hexDigit n ∈ hexDigits := by decide
    have hupper : ∀ n < 16, (hexDigit n).toUpper ∈ hexDigits := by decide
    cases h with
    | lower h => exact hlower n h
    | upper h => exact hupper n h
  cases h with
  | intro ha hb hc hd =>
      simp only [List.forall_mem_cons]
      exact ⟨hdigit ha, hdigit hb, hdigit hc, hdigit hd, nofun⟩

theorem HexNumber.not_control {n : Nat} {digits : List Char} (h : HexNumber n digits) :
    ∀ c ∈ digits, ¬ c < ' ' := by
  have hall : hexDigits.all (fun c => !decide (c < ' ')) = true := by decide
  intro c hc
  simpa using List.all_eq_true.mp hall c (h.mem_hexDigits c hc)

theorem SpelledChar.not_control {c : Char} {cs : List Char} (h : SpelledChar c cs) :
    ∀ d ∈ cs, ¬ d < ' ' := by
  have hescape {digits rest : List Char} (hdigits : ∀ d ∈ digits, ¬ d < ' ')
      (hrest : ∀ d ∈ rest, ¬ d < ' ') : ∀ d ∈ '\\' :: 'u' :: (digits ++ rest), ¬ d < ' ' := by
    simp only [List.forall_mem_cons, List.forall_mem_append]
    exact ⟨by decide, by decide, hdigits, hrest⟩
  cases h with
  | plain _ _ hcontrol => exact List.forall_mem_singleton.mpr hcontrol
  | short h =>
      have hletters : ∀ x ∈ shortEscapes, ¬ x.2 < ' ' := by decide
      simp only [List.forall_mem_cons]
      exact ⟨by decide, hletters _ h, nofun⟩
  | numeric h => simpa using hescape h.not_control (List.forall_mem_nil _)
  | surrogates _ _ _ hhighs hlows =>
      have hlow := hescape hlows.not_control (List.forall_mem_nil _)
      rw [List.append_nil] at hlow
      exact hescape hhighs.not_control hlow

/-- However a text is written between quotes, no control character is in it. -/
theorem SpelledChars.not_control {t ts : List Char} (h : SpelledChars t ts) : ∀ d ∈ ts, ¬ d < ' ' := by
  induction h with
  | nil => exact List.forall_mem_nil _
  | cons h _ ih => exact List.forall_mem_append.mpr ⟨h.not_control, ih⟩

/-! ### Escapes -/

theorem HexDigit.hexValue?_eq {n : Nat} {c : Char} (h : HexDigit n c) : hexValue? c = some n := by
  have hlower : ∀ n < 16, hexValue? (hexDigit n) = some n := by decide
  have hupper : ∀ n < 16, hexValue? (hexDigit n).toUpper = some n := by decide
  cases h with
  | lower h => exact hlower n h
  | upper h => exact hupper n h

theorem HexNumber.length_eq {n : Nat} {digits : List Char} (h : HexNumber n digits) :
    digits.length = 4 := by
  cases h
  rfl

theorem HexNumber.readHex_eq {n : Nat} {digits : List Char} (h : HexNumber n digits)
    (s : List Char) : readHex (digits ++ s) = .ok (n, s) := by
  cases h with
  | intro ha hb hc hd =>
      simp [readHex, hexNumber?, ha.hexValue?_eq, hb.hexValue?_eq, hc.hexValue?_eq, hd.hexValue?_eq]

/-- The number of a character is no surrogate. -/
theorem not_isSurrogate_toNat (c : Char) :
    isLowSurrogate c.toNat = false ∧ isHighSurrogate c.toNat = false := by
  have hvalid : c.toNat < 0xD800 ∨ 0xDFFF < c.toNat := c.valid.imp id And.left
  simp only [isLowSurrogate, isHighSurrogate, Bool.and_eq_false_iff, decide_eq_false_iff_not]
  omega

theorem readUnicode_numeric {c : Char} {digits : List Char} (h : HexNumber c.toNat digits)
    (s : List Char) : readUnicode (digits ++ s) = .ok (c, 4) := by
  obtain ⟨hlow, hhigh⟩ := not_isSurrogate_toNat c
  rw [readUnicode, h.readHex_eq]
  simp [bind, Except.bind, pure, Except.pure, hlow, hhigh]

theorem readUnicode_surrogates {c : Char} {high low : Nat} {highs lows : List Char}
    (hhigh : high < 0x400) (hlow : low < 0x400) (hc : c.toNat = 0x10000 + high * 0x400 + low)
    (hhighs : HexNumber (0xD800 + high) highs) (hlows : HexNumber (0xDC00 + low) lows)
    (s : List Char) :
    readUnicode (highs ++ ('\\' :: 'u' :: (lows ++ s))) = .ok (c, 10) := by
  have hfirst : isLowSurrogate (0xD800 + high) = false ∧ isHighSurrogate (0xD800 + high) = true := by
    simp only [isLowSurrogate, isHighSurrogate, Bool.and_eq_false_iff, Bool.and_eq_true,
      decide_eq_false_iff_not, decide_eq_true_eq]
    omega
  have hsecond : isLowSurrogate (0xDC00 + low) = true := by
    simp only [isLowSurrogate, Bool.and_eq_true, decide_eq_true_eq]
    omega
  have hpair : surrogatePair (0xD800 + high) (0xDC00 + low) = c := by
    rw [surrogatePair, Nat.add_sub_cancel_left, Nat.add_sub_cancel_left, ← hc, Char.ofNat_toNat]
  rw [readUnicode, hhighs.readHex_eq]
  simp [bind, Except.bind, pure, Except.pure, expectInPair, hfirst, hlows.readHex_eq, hsecond, hpair]

/-- An escape is read as its character, behind its backslash. -/
theorem readEscape_of_spelled {c : Char} {escape : List Char} (h : SpelledChar c ('\\' :: escape))
    (s : List Char) : readEscape (escape ++ s) = .ok (c, escape.length) := by
  cases h with
  | plain _ hbackslash => exact absurd rfl hbackslash
  | short h =>
      simp only [shortEscapes, List.mem_cons, Prod.mk.injEq, List.not_mem_nil, or_false] at h
      rcases h with ⟨rfl, rfl⟩ | ⟨rfl, rfl⟩ | ⟨rfl, rfl⟩ | ⟨rfl, rfl⟩ | ⟨rfl, rfl⟩ | ⟨rfl, rfl⟩ |
        ⟨rfl, rfl⟩ | ⟨rfl, rfl⟩ <;> rfl
  | @numeric digits h =>
      rw [List.cons_append, readEscape, if_pos rfl, readUnicode_numeric h, List.length_cons,
        h.length_eq]
      rfl
  | @surrogates _ _ highs lows hhigh hlow hc hhighs hlows =>
      have hwidth : ('u' :: (highs ++ '\\' :: 'u' :: lows)).length = 11 := by
        simp [hhighs.length_eq, hlows.length_eq]
      rw [hwidth, List.cons_append, List.append_assoc, readEscape, if_pos rfl, List.cons_append,
        List.cons_append, readUnicode_surrogates hhigh hlow hc hhighs hlows]
      rfl

/-! ### Texts -/

/-- The reader skips what an escape has taken. -/
theorem unquoted_skip (skip s : List Char) :
    unquoted skip.length (skip ++ s) =
      (unquoted 0 s).map fun (content, width) => (content, width + skip.length) := by
  induction skip with
  | nil => cases h : unquoted 0 s <;> simp [Except.map, h]
  | cons c skip ih =>
      rw [List.length_cons, List.cons_append, unquoted, ih]
      cases unquoted 0 s with
      | error f => rfl
      | ok read => simp [Except.map, bind, Except.bind, pure, Except.pure, Nat.add_assoc]

/-- The reader takes every spelling of a character for the character. -/
theorem unquoted_of_spelled {c : Char} {cs : List Char} (h : SpelledChar c cs) (s : List Char) :
    unquoted 0 (cs ++ s) =
      (unquoted 0 s).map fun (content, width) => (c :: content, width + cs.length) := by
  have hescape {escape : List Char} (h : SpelledChar c ('\\' :: escape)) :
      unquoted 0 ('\\' :: escape ++ s) =
        (unquoted 0 s).map fun (content, width) => (c :: content, width + ('\\' :: escape).length) := by
    rw [List.cons_append, unquoted, if_neg (by decide), if_pos rfl, readEscape_of_spelled h s]
    simp only [bind, Except.bind]
    rw [unquoted_skip]
    cases unquoted 0 s with
    | error f => rfl
    | ok read => rfl
  cases h with
  | plain hquote hbackslash hcontrol =>
      rw [List.singleton_append, unquoted, if_neg hquote, if_neg hbackslash, if_neg hcontrol]
      cases unquoted 0 s with
      | error f => rfl
      | ok read => rfl
  | short h => exact hescape (.short h)
  | numeric h => exact hescape (.numeric h)
  | surrogates hhigh hlow hc hhighs hlows => exact hescape (.surrogates hhigh hlow hc hhighs hlows)

/-- The reader takes every spelling of a text for the text, and stops behind the closing quote. -/
theorem unquoted_spelledChars {t ts : List Char} (h : SpelledChars t ts) (s : List Char) :
    unquoted 0 (ts ++ '"' :: s) = .ok (t, ts.length + 1) := by
  induction h with
  | nil => rfl
  | cons h ht ih =>
      rw [List.append_assoc, unquoted_of_spelled h, ih]
      simp [Except.map]
      omega

end Json
end SheetFormula

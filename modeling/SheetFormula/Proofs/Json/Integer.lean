import SheetFormula.Json.Token
import SheetFormula.Proofs.Number.Rounding
import SheetFormula.Proofs.Text.Numeral

/-! Integer literals. Up to 2⁵³ binary64 holds every integer; such an integer is written with its decimal
digits, and read back from them: the digits fit into the significand, so none is dropped, and the integer
is a magnitude of the format, so it is not rounded. A literal ends where no digit, point or exponent
follows. -/

namespace SheetFormula

/-- The magnitude up to which binary64 holds every integer, 2⁵³. -/
def integerBound : Nat := 0x20000000000000

namespace Json

/-- An integer and its literal. Either literal of zero stands for the zero of its sign. -/
inductive SpelledInteger : Binary64 → List Char → Prop where
  | intro {negative : Bool} {rank : Fin rankBound} {n : Nat}
      (hunits : Binary64.units rank.val = n * Binary64.one) (hbound : n ≤ integerBound) :
      SpelledInteger (.finite negative rank)
        ((if negative then ['-'] else []) ++ Decimal.digitChars n)

/-- The characters that a literal goes on with behind its digits. -/
def continuesNumeral (c : Char) : Bool := c.isDigit || c == '.' || c == 'e' || c == 'E'

theorem stopsBefore_isDigit {rest : List Char} (h : StopsBefore continuesNumeral rest) :
    StopsBefore Char.isDigit rest := by
  intro c hc
  have hstop := h c hc
  simp only [continuesNumeral, Bool.or_eq_false_iff] at hstop
  exact hstop.1.1.1

namespace Numeral

/-! ### Digits -/

theorem le_ofDigitChars (cs : List Char) (n : Nat) : n ≤ Nat.ofDigitChars 10 cs n := by
  induction cs generalizing n with
  | nil => exact Nat.le_refl n
  | cons c cs ih =>
      rw [Nat.ofDigitChars_cons]
      have htail := ih (10 * n + (c.toNat - '0'.toNat))
      omega

/-- Digits of a number below the bound are all absorbed. -/
theorem absorb_digits {bound n : Nat} {cs : List Char} (h : Nat.ofDigitChars 10 cs n < bound) :
    absorb bound n (cs.map fun c => c.toNat - '0'.toNat) = (Nat.ofDigitChars 10 cs n, []) := by
  induction cs generalizing n with
  | nil => rfl
  | cons c cs ih =>
      rw [Nat.ofDigitChars_cons] at h
      have hhead := Nat.lt_of_le_of_lt (le_ofDigitChars cs _) h
      rw [List.map_cons, absorb, if_pos (by omega), Nat.ofDigitChars_cons, Nat.mul_comm n 10, ih h]

theorem digits_append {cs rest : List Char} (hcs : ∀ c ∈ cs, c.isDigit = true)
    (hrest : StopsBefore Char.isDigit rest) :
    digits (cs ++ rest) = (cs.map fun c => c.toNat - '0'.toNat, rest) := by
  have hstop : rest.takeWhile Char.isDigit = [] ∧ rest.dropWhile Char.isDigit = rest := by
    cases rest with
    | nil => exact ⟨rfl, rfl⟩
    | cons c rest =>
        have hc := stopsBefore_cons.mp hrest
        simp [hc]
  rw [digits, List.takeWhile_append_of_pos hcs, List.dropWhile_append_of_pos hcs, hstop.1, hstop.2,
    List.append_nil]

/-! ### Integers -/

theorem readInteger_digitChars (n : Nat) {rest : List Char}
    (hrest : StopsBefore Char.isDigit rest) :
    readInteger (Decimal.digitChars n ++ rest) =
      .ok ((Decimal.digitChars n).map fun c => c.toNat - '0'.toNat, rest) := by
  rcases Nat.eq_zero_or_pos n with rfl | hn
  · cases rest with
    | nil => rfl
    | cons c rest =>
        have hc := stopsBefore_cons.mp hrest
        show readInteger ('0' :: c :: rest) = .ok ([0], c :: rest)
        unfold readInteger
        simp [hc]
  · obtain ⟨c, cs, hcons, hc⟩ := Decimal.exists_digitChars_eq_cons hn
    have hdigits : ∀ d ∈ c :: cs, d.isDigit = true :=
      fun d hd => Decimal.isDigit_of_mem_digitChars (hcons ▸ hd)
    rw [hcons, List.cons_append]
    unfold readInteger
    simp only [hc, if_false, hdigits c List.mem_cons_self, if_true]
    rw [← List.cons_append, digits_append hdigits hrest]

theorem readFraction_of_stopsBefore {rest : List Char} (h : StopsBefore continuesNumeral rest) :
    readFraction rest = .ok ([], rest) := by
  unfold readFraction
  split
  · cases stopsBefore_cons.mp h
  · rfl

theorem readExponent_of_stopsBefore {rest : List Char} (h : StopsBefore continuesNumeral rest) :
    readExponent rest = .ok (none, rest) := by
  cases rest with
  | nil => rfl
  | cons c rest =>
      have hc := stopsBefore_cons.mp h
      simp only [continuesNumeral, Bool.or_eq_false_iff, beq_eq_false_iff_ne] at hc
      rw [readExponent, if_neg (not_or.mpr ⟨hc.1.2, hc.2⟩)]

/-- The literal of an integer. -/
def ofInteger (negative : Bool) (n : Nat) : Numeral where
  negative := negative
  integer := (Decimal.digitChars n).map fun c => c.toNat - '0'.toNat
  fraction := []
  exponent := none

theorem read_integer (negative : Bool) (n : Nat) {rest : List Char}
    (hrest : StopsBefore continuesNumeral rest) :
    read ((if negative then ['-'] else []) ++ Decimal.digitChars n ++ rest) =
      .ok (ofInteger negative n, rest) := by
  have hinteger := readInteger_digitChars n (stopsBefore_isDigit hrest)
  have hfraction := readFraction_of_stopsBefore hrest
  have hexponent := readExponent_of_stopsBefore hrest
  cases negative with
  | true =>
      simp [read, hinteger, hfraction, hexponent, bind, Except.bind, pure, Except.pure, ofInteger]
  | false =>
      have hne : Decimal.digitChars n ≠ [] := Nat.toDigits_ne_nil
      obtain ⟨c, cs, hcons⟩ := List.exists_cons_of_ne_nil hne
      have hc : c.isDigit = true :=
        Decimal.isDigit_of_mem_digitChars (hcons ▸ List.mem_cons_self)
      have happend : Decimal.digitChars n ++ rest = c :: (cs ++ rest) := congrArg (· ++ rest) hcons
      rw [happend] at hinteger
      rw [if_neg Bool.false_ne_true, List.nil_append, happend]
      unfold read
      split
      next negative tail hopen =>
        split at hopen
        next heq =>
          rw [List.head_eq_of_cons_eq heq] at hc
          cases hc
        next =>
          cases hopen
          simp [hinteger, hfraction, hexponent, bind, Except.bind, pure, Except.pure, ofInteger]

theorem width_ofInteger (negative : Bool) (n : Nat) :
    (ofInteger negative n).width =
      ((if negative then ['-'] else []) ++ Decimal.digitChars n).length := by
  cases negative <;> simp [width, ofInteger, Nat.add_comm]

theorem ofNat_eq_of_units {n : Nat} {rank : Fin rankBound}
    (h : Binary64.units rank.val = n * Binary64.one) : Binary64.ofNat n = .finite false rank := by
  have hrank : Binary64.nearestRank n 1 = rank.val :=
    Nat.le_antisymm (Binary64.nearestRank_le Nat.one_pos (by rw [h, Nat.mul_one]))
      (Binary64.le_nearestRank Nat.one_pos (by rw [h, Nat.mul_one]))
  rw [Binary64.ofNat, Binary64.ofRatio, hrank, Binary64.ofRank, dif_pos rank.isLt]

/-- A literal of an integer alone stands for the number nearest to it, if no digit is dropped. -/
theorem value_of_integer {m : Numeral} {n : Nat} (hfraction : m.fraction = [])
    (hexponent : m.exponent = none) (habsorb : absorb significandBound 0 m.integer = (n, [])) :
    m.value = .ok (if m.negative then (Binary64.ofNat n).neg else Binary64.ofNat n) := by
  have hrest : absorb significandBound n m.fraction = (n, []) := by
    rw [hfraction]
    rfl
  rw [value]
  dsimp only
  split
  next =>
    rw [habsorb, hrest, hfraction]
    rfl
  next hsome =>
    rw [hexponent] at hsome
    cases hsome

theorem value_ofInteger {negative : Bool} {n : Nat} {rank : Fin rankBound}
    (hunits : Binary64.units rank.val = n * Binary64.one) (hbound : n ≤ integerBound) :
    (ofInteger negative n).value = .ok (.finite negative rank) := by
  have hread : Nat.ofDigitChars 10 (Decimal.digitChars n) 0 = n := Decimal.read_digitChars n
  have hlt : Nat.ofDigitChars 10 (Decimal.digitChars n) 0 < significandBound := by
    rw [hread]
    exact Nat.lt_of_le_of_lt hbound (by decide)
  have habsorb := absorb_digits hlt
  rw [hread] at habsorb
  rw [value_of_integer rfl rfl habsorb, ofNat_eq_of_units hunits]
  cases negative <;> rfl

end Numeral

/-- The literal of an integer is read as the integer, up to its last digit. -/
theorem readNumber_integer {x : Binary64} {cs rest : List Char} (h : SpelledInteger x cs)
    (hrest : StopsBefore continuesNumeral rest) : readNumber (cs ++ rest) = .ok (x, cs.length) := by
  cases h with
  | @intro negative rank n hunits hbound =>
      rw [readNumber, Numeral.read_integer negative n hrest]
      simp only [bind, Except.bind, Numeral.value_ofInteger hunits hbound, Numeral.width_ofInteger]
      rfl

end Json
end SheetFormula

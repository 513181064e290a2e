import Mathlib.Data.List.DropRight
import SheetFormula.Proofs.Text.Numeral

/-! The parts of a numeral: a sign, the digits before the point and those behind it. The text of a decimal
can be taken apart into them again (`Decimal.Positional.ofChars_chars`), they stand for the same decimal
(`Decimal.decimal_positional`), and they hold no zero that could be left out if the last digit of the decimal
is not a zero (`Decimal.canonical_positional`). -/

namespace SheetFormula
namespace Decimal

/-! ### Significant digits -/

/-- How many digits a number has without the zeros at its end. -/
def significantDigits (n : Nat) : Nat := ((digitChars n).rdropWhile (· == '0')).length

theorem digitChars_append_digit {n d : Nat} (hn : 0 < n) (hd : d < 10) :
    digitChars (10 * n + d) = digitChars n ++ [d.digitChar] := by
  rw [digitChars, digitChars, ← Nat.toDigits_append_toDigits (by decide) hn hd, Nat.toDigits_of_lt_base hd]

theorem digitChar_ne_zero {d : Nat} (h : d % 10 ≠ 0) : (d % 10).digitChar ≠ '0' := by
  have hall : ∀ d < 10, d ≠ 0 → d.digitChar ≠ '0' := by decide
  exact hall _ (Nat.mod_lt _ (by decide)) h

theorem significantDigits_ten_mul (n : Nat) : significantDigits (10 * n) = significantDigits n := by
  rcases Nat.eq_zero_or_pos n with rfl | hn
  · rfl
  · have happend := digitChars_append_digit hn (show 0 < 10 by decide)
    rw [Nat.add_zero] at happend
    rw [significantDigits, happend, List.rdropWhile_concat_pos _ _ _ (by decide), significantDigits]

theorem significantDigits_mul_ten_pow (n j : Nat) : significantDigits (n * 10 ^ j) = significantDigits n := by
  induction j with
  | zero => rw [Nat.pow_zero, Nat.mul_one]
  | succ j ih => rw [Nat.pow_succ, ← Nat.mul_assoc, Nat.mul_comm _ 10, significantDigits_ten_mul, ih]

/-- The last character of a numeral is its last digit. -/
theorem exists_digitChars_eq_concat (n : Nat) : ∃ front, digitChars n = front ++ [(n % 10).digitChar] := by
  rcases Nat.lt_or_ge n 10 with hlt | hge
  · refine ⟨[], ?_⟩
    rw [digitChars, Nat.toDigits_of_lt_base hlt, Nat.mod_eq_of_lt hlt, List.nil_append]
  · exact ⟨_, Nat.toDigits_of_base_le (by decide) hge⟩

theorem significantDigits_of_mod_ne_zero {n : Nat} (h : n % 10 ≠ 0) :
    significantDigits n = (digitChars n).length := by
  obtain ⟨front, hfront⟩ := exists_digitChars_eq_concat n
  have hlast : ¬ ((n % 10).digitChar == '0') = true := by simpa using digitChar_ne_zero h
  rw [significantDigits, hfront, List.rdropWhile_concat_neg (· == '0') _ _ hlast]

theorem significantDigits_le {n k : Nat} (h : n < 10 ^ k) : significantDigits n ≤ k := by
  rcases Nat.eq_zero_or_pos k with rfl | hk
  · rw [Nat.lt_one_iff.mp h]
    rfl
  · have hprefix := List.rdropWhile_prefix (· == '0') (l := digitChars n)
    exact hprefix.length_le.trans ((Nat.length_toDigits_le_iff (by decide) hk).mpr h)

/-- A number is one with no more digits than the significant ones, followed by zeros. -/
theorem exists_eq_mul_ten_pow (n : Nat) : ∃ m j, n = m * 10 ^ j ∧ m < 10 ^ significantDigits n := by
  induction n using Nat.strong_induction_on with
  | _ n ih =>
      rcases Nat.eq_zero_or_pos n with rfl | hn
      · exact ⟨0, 0, rfl, Nat.pow_pos (by decide)⟩
      · by_cases hmod : n % 10 = 0
        · have hten : n = 10 * (n / 10) := by omega
          obtain ⟨m, j, heq, hlt⟩ := ih (n / 10) (by omega)
          rw [← significantDigits_ten_mul, ← hten] at hlt
          refine ⟨m, j + 1, ?_, hlt⟩
          rw [Nat.pow_succ, ← Nat.mul_assoc, ← heq]
          omega
        · refine ⟨n, 0, (Nat.mul_one n).symm, ?_⟩
          rw [significantDigits_of_mod_ne_zero hmod]
          have hlength : 0 < (digitChars n).length := List.length_pos_of_ne_nil Nat.toDigits_ne_nil
          exact (Nat.length_toDigits_le_iff (by decide) hlength).mp (Nat.le_refl _)

/-! ### Numerals taken apart -/

/-- A numeral taken apart into its sign and its digits before and behind the point. -/
structure Positional where
  negative : Bool
  whole : List Char
  fraction : List Char

namespace Positional

/-- Takes a numeral apart: an optional minus sign, the digits that follow, and what is behind the point. -/
def ofChars (cs : List Char) : Positional :=
  let negative := cs.head? == some '-'
  let unsigned := if negative then cs.tail else cs
  ⟨negative, unsigned.takeWhile Char.isDigit, (unsigned.dropWhile Char.isDigit).tail⟩

/-- The numeral as it is written; the point is there if there are digits behind it. -/
def chars (p : Positional) : List Char :=
  (if p.negative then ['-'] else []) ++ (p.whole ++ if p.fraction.isEmpty then [] else '.' :: p.fraction)

/-- Whether a numeral has digits on both sides of its point, and no zero that could be left out. -/
structure Canonical (p : Positional) : Prop where
  whole_ne_nil : p.whole ≠ []
  whole_digits : ∀ c ∈ p.whole, c.isDigit = true
  fraction_digits : ∀ c ∈ p.fraction, c.isDigit = true
  leading : p.whole = ['0'] ∨ p.whole.head? ≠ some '0'
  trailing : p.fraction.getLast? ≠ some '0'

/-- The exact decimal that a numeral stands for. -/
def decimal (p : Positional) : Decimal :=
  ⟨p.negative, read (p.whole ++ p.fraction), -(p.fraction.length : Int)⟩

/-- What is written behind the whole part. -/
def afterWhole (p : Positional) : List Char := if p.fraction.isEmpty then [] else '.' :: p.fraction

theorem chars_eq (p : Positional) :
    p.chars = (if p.negative then ['-'] else []) ++ (p.whole ++ p.afterWhole) := rfl

theorem stopsBefore_afterWhole (p : Positional) : StopsBefore Char.isDigit p.afterWhole := by
  rw [afterWhole]
  split
  · nofun
  · exact stopsBefore_cons.mpr rfl

theorem tail_afterWhole (p : Positional) : p.afterWhole.tail = p.fraction := by
  rw [afterWhole]
  split
  next h => exact (List.isEmpty_iff.mp h).symm
  next => rfl

theorem head?_ne_minus {p : Positional} (h : p.Canonical) : (p.whole ++ p.afterWhole).head? ≠ some '-' := by
  obtain ⟨c, rest, hwhole⟩ := List.exists_cons_of_ne_nil h.whole_ne_nil
  have hdigit := h.whole_digits c (hwhole ▸ List.mem_cons_self)
  rw [hwhole, List.cons_append, List.head?_cons]
  rintro ⟨⟩
  cases hdigit

/-- A numeral that is written is read as itself. -/
theorem ofChars_chars {p : Positional} (h : p.Canonical) : ofChars p.chars = p := by
  have htake : (p.whole ++ p.afterWhole).takeWhile Char.isDigit = p.whole := by
    rw [List.takeWhile_append_of_pos h.whole_digits, p.stopsBefore_afterWhole.takeWhile_eq, List.append_nil]
  have hdrop : (p.whole ++ p.afterWhole).dropWhile Char.isDigit = p.afterWhole := by
    rw [List.dropWhile_append_of_pos h.whole_digits, p.stopsBefore_afterWhole.dropWhile_eq]
  rw [chars_eq, ofChars]
  obtain ⟨negative, whole, fraction⟩ := p
  cases negative with
  | true => simp only [if_true, List.singleton_append, List.head?_cons, beq_self_eq_true, List.tail_cons,
      htake, hdrop, tail_afterWhole]
  | false =>
      have hhead := beq_eq_false_iff_ne.mpr (head?_ne_minus h)
      simp only [Bool.false_eq_true, if_false, List.nil_append, hhead, htake, hdrop, tail_afterWhole]

end Positional

/-! ### The text of a decimal -/

section WithPoint

variable {cs : List Char} {places : Nat}

/-- The digits before the point, where a number of places is behind it. -/
def wholeChars (cs : List Char) (places : Nat) : List Char :=
  if places < cs.length then cs.take (cs.length - places) else ['0']

/-- The digits behind the point, where there is a number of them. -/
def fractionChars (cs : List Char) (places : Nat) : List Char :=
  if places < cs.length then cs.drop (cs.length - places)
  else List.replicate (places - cs.length) '0' ++ cs

theorem withPoint_eq (cs : List Char) (places : Nat) :
    withPoint cs places = wholeChars cs places ++ '.' :: fractionChars cs places := by
  rw [withPoint, wholeChars, fractionChars]
  split <;> rfl

theorem length_fractionChars (cs : List Char) (places : Nat) : (fractionChars cs places).length = places := by
  rw [fractionChars]
  split
  · rw [List.length_drop]
    omega
  · rw [List.length_append, List.length_replicate]
    omega

theorem read_wholeChars_append (cs : List Char) (places : Nat) :
    read (wholeChars cs places ++ fractionChars cs places) = read cs := by
  rw [wholeChars, fractionChars]
  split
  · rw [List.take_append_drop]
  · exact read_zeros_append (places - cs.length + 1) cs

theorem wholeChars_ne_nil (h : cs ≠ []) : wholeChars cs places ≠ [] := by
  rw [wholeChars]
  split
  next hlt =>
    rw [Ne, List.take_eq_nil_iff, not_or]
    exact ⟨by omega, h⟩
  next => exact List.cons_ne_nil _ _

theorem isDigit_of_mem_wholeChars (h : ∀ c ∈ cs, c.isDigit = true) :
    ∀ c ∈ wholeChars cs places, c.isDigit = true := by
  rw [wholeChars]
  split
  · exact fun c hc => h c (List.mem_of_mem_take hc)
  · exact List.forall_mem_singleton.mpr rfl

theorem isDigit_of_mem_fractionChars (h : ∀ c ∈ cs, c.isDigit = true) :
    ∀ c ∈ fractionChars cs places, c.isDigit = true := by
  rw [fractionChars]
  split
  · exact fun c hc => h c (List.mem_of_mem_drop hc)
  · intro c hc
    rcases List.mem_append.mp hc with hc | hc
    · rw [(List.mem_replicate.mp hc).2]
      rfl
    · exact h c hc

theorem leading_wholeChars (h : cs.head? ≠ some '0') :
    wholeChars cs places = ['0'] ∨ (wholeChars cs places).head? ≠ some '0' := by
  rw [wholeChars]
  split
  next hlt =>
    right
    rw [List.head?_take, if_neg (by omega)]
    exact h
  next => exact Or.inl rfl

theorem trailing_fractionChars (hne : cs ≠ []) (h : cs.getLast? ≠ some '0') :
    (fractionChars cs places).getLast? ≠ some '0' := by
  rw [fractionChars]
  split
  · rw [List.getLast?_drop]
    split
    · nofun
    · exact h
  · rw [List.getLast?_append, List.getLast?_eq_some_getLast hne, Option.some_or,
      ← List.getLast?_eq_some_getLast hne]
    exact h

end WithPoint

/-- The parts that the text of a decimal is written in. -/
def positional (d : Decimal) : Positional :=
  match d.power with
  | .ofNat zeros => ⟨d.negative, digitChars d.digits ++ List.replicate zeros '0', []⟩
  | .negSucc n =>
    ⟨d.negative, wholeChars (digitChars d.digits) (n + 1), fractionChars (digitChars d.digits) (n + 1)⟩

theorem negative_positional (d : Decimal) : d.positional.negative = d.negative := by
  rw [positional]
  split <;> rfl

theorem magnitudeChars_eq (d : Decimal) :
    d.magnitudeChars = d.positional.whole ++ d.positional.afterWhole := by
  obtain ⟨negative, digits, power⟩ := d
  cases power with
  | ofNat zeros => exact (List.append_nil _).symm
  | negSucc n =>
      have hne : (fractionChars (digitChars digits) (n + 1)).isEmpty = false := by
        rw [List.isEmpty_eq_false_iff, ← List.length_pos_iff, length_fractionChars]
        exact Nat.succ_pos n
      show withPoint (digitChars digits) (n + 1) = wholeChars (digitChars digits) (n + 1) ++
        if (fractionChars (digitChars digits) (n + 1)).isEmpty then []
        else '.' :: fractionChars (digitChars digits) (n + 1)
      rw [withPoint_eq, hne]
      rfl

theorem toList_text (d : Decimal) : d.text.toList = d.positional.chars := by
  rw [text, String.toList_ofList, Positional.chars_eq, negative_positional, ← magnitudeChars_eq]
  split <;> rfl

/-- Where the last digit of a decimal is not a zero, its text has no zero that could be left out. -/
theorem canonical_positional {d : Decimal} (h : d.digits % 10 ≠ 0) : d.positional.Canonical := by
  have hdigits : ∀ c ∈ digitChars d.digits, c.isDigit = true := fun _ => isDigit_of_mem_digitChars
  have hne : digitChars d.digits ≠ [] := Nat.toDigits_ne_nil
  have hleading : (digitChars d.digits).head? ≠ some '0' := by
    obtain ⟨c, rest, hcons, hc⟩ := exists_digitChars_eq_cons (show 0 < d.digits by omega)
    rw [hcons, List.head?_cons]
    simpa using hc
  have htrailing : (digitChars d.digits).getLast? ≠ some '0' := by
    obtain ⟨front, hfront⟩ := exists_digitChars_eq_concat d.digits
    rw [hfront, List.getLast?_concat]
    simpa using digitChar_ne_zero h
  rw [positional]
  split
  next zeros _ =>
    refine ⟨List.append_ne_nil_of_left_ne_nil hne _, fun c hc => ?_, nofun, Or.inr ?_, nofun⟩
    · rcases List.mem_append.mp hc with hc | hc
      · exact hdigits c hc
      · rw [(List.mem_replicate.mp hc).2]
        rfl
    · rw [List.head?_append_of_ne_nil _ hne]
      exact hleading
  next n _ =>
    exact ⟨wholeChars_ne_nil hne, isDigit_of_mem_wholeChars hdigits, isDigit_of_mem_fractionChars hdigits,
      leading_wholeChars hleading, trailing_fractionChars hne htrailing⟩

/-- The parts of a text stand for the decimal that was written. -/
theorem decimal_positional (d : Decimal) : d.positional.decimal.negative = d.negative ∧
    d.positional.decimal.digits = d.scaled ∧ d.positional.decimal.power = -(d.places : Int) := by
  obtain ⟨negative, digits, power⟩ := d
  cases power with
  | ofNat zeros =>
      refine ⟨rfl, ?_, by simp [positional, Positional.decimal, places]⟩
      show read (digitChars digits ++ List.replicate zeros '0' ++ []) = digits * 10 ^ zeros
      rw [List.append_nil, read_append_zeros, read_digitChars]
  | negSucc n =>
      refine ⟨rfl, ?_, ?_⟩
      · show read (wholeChars (digitChars digits) (n + 1) ++ fractionChars (digitChars digits) (n + 1)) = digits * 1
        rw [read_wholeChars_append, read_digitChars, Nat.mul_one]
      · show -((fractionChars (digitChars digits) (n + 1)).length : Int) = -((n + 1 : Nat) : Int)
        rw [length_fractionChars]

end Decimal
end SheetFormula

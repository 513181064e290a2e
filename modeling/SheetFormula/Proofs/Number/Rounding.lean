import SheetFormula.Binary64
import SheetFormula.Proofs.Text.Interval

/-! Rounding respects magnitudes. A quotient that is no greater than the magnitude of a rank is rounded to
that rank or one below it, and one that is no less to that rank or one above it. So rounding leaves a
magnitude of the format as it is, and division by one or more leaves the finite numbers among the
finite numbers. -/

namespace SheetFormula

theorem roundHalfEven_le {num den m : Nat} (hden : 0 < den) (h : num ≤ m * den) :
    roundHalfEven num den ≤ m := by
  have hquotient : num / den ≤ m := Nat.div_le_of_le_mul (Nat.mul_comm m den ▸ h)
  rw [roundHalfEven]
  rcases Nat.lt_or_eq_of_le hquotient with hlt | heq
  · split
    · exact hquotient
    · split <;> omega
  · have hremainder : num % den = 0 := by
      have hdivision := Nat.div_add_mod num den
      rw [heq, Nat.mul_comm den m] at hdivision
      omega
    rw [hremainder, Nat.mul_zero, if_pos hden]
    exact hquotient

theorem le_roundHalfEven {num den m : Nat} (hden : 0 < den) (h : m * den ≤ num) :
    m ≤ roundHalfEven num den := by
  have hquotient : m ≤ num / den := (Nat.le_div_iff_mul_le hden).mpr h
  rw [roundHalfEven]
  split
  · exact hquotient
  · split <;> omega

namespace Binary64

/-! ### Ranks -/

theorem rank_eq (rank : Nat) : rank = exponent rank * blockSize + significand rank := by
  have hblock : blockSize = 4503599627370496 := rfl
  rw [significand, exponent, hblock]
  omega

theorem significand_lt (rank : Nat) : significand rank < 2 * blockSize := by
  have hblock : blockSize = 4503599627370496 := rfl
  rw [significand, exponent, hblock]
  omega

theorem blockSize_le_significand {rank : Nat} (h : 0 < exponent rank) :
    blockSize ≤ significand rank := by
  have hblock : blockSize = 4503599627370496 := rfl
  rw [exponent, hblock] at h
  rw [significand, exponent, hblock]
  omega

theorem blockSize_eq_two_pow : blockSize = 2 ^ 52 := by
  rfl

theorem two_mul_blockSize : 2 * blockSize = 2 ^ 53 := by
  rfl

/-! ### The scale of a quotient -/

/-- The exponent that a quotient in units is rounded with. -/
def scale (quotient : Nat) : Nat := quotient.log2 - 52

theorem nearestRank_eq (num den : Nat) :
    nearestRank num den = scale (num * one / den) * blockSize +
      roundHalfEven (num * one) (den * 2 ^ scale (num * one / den)) := rfl

theorem lt_two_pow_scale (q : Nat) : q < 2 ^ scale q * (2 * blockSize) := by
  have hle : q.log2 + 1 ≤ scale q + 53 := by
    rw [scale]
    omega
  rw [two_mul_blockSize, ← Nat.pow_add]
  exact Nat.lt_of_lt_of_le Nat.lt_log2_self (Nat.pow_le_pow_right Nat.two_pos hle)

theorem two_pow_scale_le {q : Nat} (h : 0 < scale q) : 2 ^ scale q * blockSize ≤ q := by
  have hlog : scale q + 52 = q.log2 := by
    rw [scale] at h ⊢
    omega
  have hne : q ≠ 0 := by
    rintro rfl
    simp [scale] at h
  rw [blockSize_eq_two_pow, ← Nat.pow_add, hlog]
  exact Nat.log2_self_le hne

/-- Twice the power of an exponent is within the power of a greater one. -/
theorem two_pow_mul_two_le {a b : Nat} (h : a < b) : 2 ^ a * 2 ≤ 2 ^ b := by
  rw [← Nat.pow_succ]
  exact Nat.pow_le_pow_right Nat.two_pos h

section Quotient

variable {num den r : Nat}

/-- A quotient up to the magnitude of a rank is rounded to that rank at most. -/
theorem nearestRank_le (hden : 0 < den) (h : num * one ≤ units r * den) : nearestRank num den ≤ r := by
  rw [nearestRank_eq]
  generalize num * one = n at h ⊢
  have hquotient : n / den ≤ units r := Nat.div_le_of_le_mul (by rwa [Nat.mul_comm])
  have hrest : n < den * (n / den + 1) := Nat.lt_mul_div_succ n hden
  generalize n / den = q at hquotient hrest ⊢
  have hupper := lt_two_pow_scale q
  have hscaled : 0 < den * 2 ^ scale q := Nat.mul_pos hden (Nat.two_pow_pos _)
  have hrank := rank_eq r
  have hsignificand := significand_lt r
  have hunits : units r = significand r * 2 ^ exponent r := rfl
  rcases Nat.lt_trichotomy (scale q) (exponent r) with hlt | heq | hgt
  · -- The quotient stays below the significands of the scale of the rank.
    have hbound : n ≤ 2 * blockSize * (den * 2 ^ scale q) := by
      calc n ≤ den * (q + 1) := hrest.le
        _ ≤ den * (2 ^ scale q * (2 * blockSize)) := Nat.mul_le_mul_left den hupper
        _ = 2 * blockSize * (den * 2 ^ scale q) := by ring
    have hround := roundHalfEven_le hscaled hbound
    have hblock := blockSize_le_significand (Nat.zero_lt_of_lt hlt)
    have hmul : (scale q + 1) * blockSize ≤ exponent r * blockSize := Nat.mul_le_mul_right _ hlt
    rw [Nat.add_mul] at hmul
    omega
  · have hbound : n ≤ significand r * (den * 2 ^ scale q) := by
      calc n ≤ units r * den := h
        _ = significand r * (den * 2 ^ scale q) := by rw [hunits, heq]; ring
    have hround := roundHalfEven_le hscaled hbound
    rw [heq] at hround ⊢
    omega
  · -- A greater scale is that of a quotient past the magnitude of the rank.
    have hlower := two_pow_scale_le (Nat.zero_lt_of_lt hgt)
    have hpow := Nat.mul_le_mul_right blockSize (two_pow_mul_two_le hgt)
    have hmagnitude : units r < 2 ^ exponent r * 2 * blockSize := by
      calc units r = 2 ^ exponent r * significand r := by rw [hunits, Nat.mul_comm]
        _ < 2 ^ exponent r * (2 * blockSize) := Nat.mul_lt_mul_of_pos_left hsignificand (Nat.two_pow_pos _)
        _ = 2 ^ exponent r * 2 * blockSize := (Nat.mul_assoc ..).symm
    omega

/-- A quotient down to the magnitude of a rank is rounded to that rank at least. -/
theorem le_nearestRank (hden : 0 < den) (h : units r * den ≤ num * one) : r ≤ nearestRank num den := by
  rw [nearestRank_eq]
  generalize num * one = n at h ⊢
  have hquotient : units r ≤ n / den := (Nat.le_div_iff_mul_le hden).mpr h
  have hrest : n / den * den ≤ n := Nat.div_mul_le_self n den
  generalize n / den = q at hquotient hrest ⊢
  have hscaled : 0 < den * 2 ^ scale q := Nat.mul_pos hden (Nat.two_pow_pos _)
  have hrank := rank_eq r
  have hsignificand := significand_lt r
  have hunits : units r = significand r * 2 ^ exponent r := rfl
  rcases Nat.lt_trichotomy (scale q) (exponent r) with hlt | heq | hgt
  · -- A smaller scale is that of a quotient below the magnitude of the rank.
    have hupper := lt_two_pow_scale q
    have hpow := Nat.mul_le_mul_right blockSize (two_pow_mul_two_le hlt)
    have hmagnitude : 2 ^ exponent r * blockSize ≤ units r := by
      rw [hunits, Nat.mul_comm]
      exact Nat.mul_le_mul_right _ (blockSize_le_significand (Nat.zero_lt_of_lt hlt))
    rw [← Nat.mul_assoc] at hupper
    omega
  · have hbound : significand r * (den * 2 ^ scale q) ≤ n := by
      calc significand r * (den * 2 ^ scale q) = units r * den := by rw [hunits, heq]; ring
        _ ≤ n := h
    have hround := le_roundHalfEven hscaled hbound
    rw [heq] at hround ⊢
    omega
  · -- The quotient is past the significands of the scale of the rank.
    have hbound : blockSize * (den * 2 ^ scale q) ≤ n := by
      calc blockSize * (den * 2 ^ scale q) = 2 ^ scale q * blockSize * den := by ring
        _ ≤ q * den := Nat.mul_le_mul_right den (two_pow_scale_le (Nat.zero_lt_of_lt hgt))
        _ ≤ n := hrest
    have hround := le_roundHalfEven hscaled hbound
    have hmul : (exponent r + 1) * blockSize ≤ scale q * blockSize := Nat.mul_le_mul_right _ hgt
    rw [Nat.add_mul] at hmul
    omega

end Quotient

/-! ### Finite results -/

theorem isFinite_ofRank {negative : Bool} {rank : Nat} (h : rank < rankBound) :
    (ofRank negative rank).isFinite = true := by
  rw [ofRank, dif_pos h]
  rfl

theorem isFinite_neg {x : Binary64} (h : x.isFinite = true) : x.neg.isFinite = true := by
  cases x with
  | finite negative rank => rfl
  | nan | infinite => cases h

/-- The greatest rank of a finite number. -/
def greatestRank : Nat := rankBound - 1

/-- The rank of the number 1. -/
def rankOfOne : Nat := 1023 * blockSize

theorem units_rankOfOne : units rankOfOne = one := by
  decide +kernel

theorem units_one_pos : 0 < one := by
  decide +kernel

section OfNat

variable {n : Nat}

theorem nearestRank_lt_rankBound (h : n * one ≤ units greatestRank) : nearestRank n 1 < rankBound := by
  have hle : nearestRank n 1 ≤ greatestRank := nearestRank_le Nat.one_pos (by rwa [Nat.mul_one])
  exact Nat.lt_of_le_sub_one (by decide) hle

theorem isFinite_ofNat (h : n * one ≤ units greatestRank) : (ofNat n).isFinite = true :=
  isFinite_ofRank (nearestRank_lt_rankBound h)

/-- A positive integer is rounded to one or more. -/
theorem one_le_units_nearestRank (h : 0 < n) : one ≤ units (nearestRank n 1) := by
  have hrank : rankOfOne ≤ nearestRank n 1 := by
    apply le_nearestRank Nat.one_pos
    rw [units_rankOfOne, Nat.mul_one]
    exact Nat.le_mul_of_pos_left one h
  exact units_rankOfOne.ge.trans (units_strictMono.monotone hrank)

/-- Division by a positive integer leaves the finite numbers among the finite numbers. -/
theorem isFinite_div_ofNat {x : Binary64} (hx : x.isFinite = true) (hpos : 0 < n)
    (hle : n * one ≤ units greatestRank) : (x.div (ofNat n)).isFinite = true := by
  have hlt := nearestRank_lt_rankBound hle
  have hone := one_le_units_nearestRank hpos
  rw [ofNat, ofRatio, ofRank, dif_pos hlt]
  cases x with
  | nan | infinite => cases hx
  | finite negative rank =>
      have hunits : 0 < units (nearestRank n 1) := Nat.lt_of_lt_of_le units_one_pos hone
      have hnonzero : nearestRank n 1 ≠ 0 := by
        intro h
        rw [h] at hunits
        exact absurd hunits (by decide)
      rw [div, if_neg hnonzero, ofRatio]
      apply isFinite_ofRank
      have hquotient : nearestRank (units rank) (units (nearestRank n 1)) ≤ rank :=
        nearestRank_le hunits (Nat.mul_le_mul_left _ hone)
      exact Nat.lt_of_le_of_lt hquotient rank.isLt

end OfNat

end Binary64
end SheetFormula

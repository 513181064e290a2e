import Mathlib.Algebra.Order.Field.Basic
import Mathlib.Algebra.Order.Ring.Rat
import Mathlib.Tactic.Linarith
import Mathlib.Tactic.Positivity
import SheetFormula.Proofs.Number.Rounding

/-! Rounding goes to the nearest number. A quotient is rounded to the rank in whose interval it lies
(`nearestRank_eq_iff`), and there is only one such rank. In terms of values, no number is nearer to a decimal
than the one that it is rounded to, and of two numbers that are equally near it is the one with the even
rank (`Decimal.nearest_near`). -/

namespace SheetFormula

/-- A rounded quotient is off by half a unit at most, and by half a unit only if it is even. -/
theorem roundHalfEven_near {num den : Nat} (hden : 0 < den) :
    (2 * num ≤ (2 * roundHalfEven num den + 1) * den ∧
      2 * roundHalfEven num den * den ≤ 2 * num + den) ∧
    (roundHalfEven num den % 2 = 1 → 2 * num < (2 * roundHalfEven num den + 1) * den ∧
      2 * roundHalfEven num den * den < 2 * num + den) := by
  have hdivision := Nat.div_add_mod num den
  have hrest := Nat.mod_lt num hden
  rw [Nat.mul_comm] at hdivision
  rw [roundHalfEven]
  generalize num / den = q at hdivision ⊢
  generalize num % den = m at hdivision hrest ⊢
  -- The three cases are the quotient rounded down, rounded up, and halfway between two integers.
  split
  · rw [Nat.add_mul, Nat.mul_assoc]
    omega
  · split
    · rw [Nat.add_mul, Nat.mul_assoc, Nat.add_mul]
      omega
    · rcases Nat.mod_two_eq_zero_or_one q with h | h
      · rw [show q + q % 2 = q by omega, Nat.add_mul, Nat.mul_assoc]
        omega
      · rw [h, Nat.add_mul, Nat.mul_assoc, Nat.add_mul]
        omega

namespace Binary64

/-! ### The interval of a significand at a scale -/

section Scaled

variable {s m : Nat}

theorem exponent_of_significand (hlow : s = 0 ∨ blockSize ≤ m) (hhigh : m < 2 * blockSize) :
    exponent (s * blockSize + m) = s := by
  have hblock : blockSize = 4503599627370496 := rfl
  rw [exponent]
  rw [hblock] at hlow hhigh ⊢
  omega

/-- The significand past the greatest one of a scale is the least one of the next scale. -/
theorem units_of_significand (hlow : s = 0 ∨ blockSize ≤ m) (hhigh : m ≤ 2 * blockSize) :
    units (s * blockSize + m) = m * 2 ^ s := by
  have hblock : blockSize = 4503599627370496 := rfl
  rcases Nat.lt_or_eq_of_le hhigh with hlt | heq
  · have hsignificand : significand (s * blockSize + m) = m := by
      rw [significand, exponent_of_significand hlow hlt]
      omega
    rw [units, hsignificand, exponent_of_significand hlow hlt]
    rfl
  · have hexponent : exponent (s * blockSize + m) = s + 1 := by
      rw [exponent, heq, hblock]
      omega
    have hsignificand : significand (s * blockSize + m) = blockSize := by
      rw [significand, hexponent, heq, hblock]
      omega
    calc units (s * blockSize + m) = blockSize * 2 ^ (s + 1) := by
          rw [units, hsignificand, hexponent]
          rfl
      _ = m * 2 ^ s := by
          rw [heq]
          ring

theorem high_of_significand (hlow : s = 0 ∨ blockSize ≤ m) (hhigh : m < 2 * blockSize) :
    (interval (s * blockSize + m)).high = (2 * m + 1) * 2 ^ s := by
  have hhigh' : (interval (s * blockSize + m)).high =
      units (s * blockSize + m) + units (s * blockSize + m + 1) := rfl
  rw [hhigh', units_succ, exponent_of_significand hlow hhigh, units_of_significand hlow hhigh.le]
  ring

/-- Below a significand that is not the least one of its scale, the magnitudes have the same distance. -/
theorem low_add_of_significand (hpos : 0 < m) (hlow : s = 0 ∨ blockSize < m) (hhigh : m ≤ 2 * blockSize) :
    (interval (s * blockSize + m)).low + 2 ^ s = 2 * m * 2 ^ s := by
  obtain ⟨k, rfl⟩ : ∃ k, m = k + 1 := ⟨m - 1, by omega⟩
  have hbelow : s = 0 ∨ blockSize ≤ k := hlow.imp_right Nat.le_of_lt_succ
  rw [interval, ← Nat.add_assoc, Nat.add_sub_cancel, Nat.add_assoc (s * _), units_of_significand hbelow (by omega),
    units_of_significand (by omega) hhigh]
  ring

variable {n den : Nat}

/-- A quotient that is rounded to a significand is within the upper end of its interval. -/
theorem within_high (hden : 0 < den) (hlow : s = 0 ∨ blockSize ≤ m) (hhigh : m ≤ 2 * blockSize)
    (hn : n < 2 * blockSize * (den * 2 ^ s)) (hle : 2 * n ≤ (2 * m + 1) * (den * 2 ^ s))
    (hodd : m % 2 = 1 → 2 * n < (2 * m + 1) * (den * 2 ^ s)) :
    2 * n ≤ (interval (s * blockSize + m)).high * den ∧
      (m % 2 = 1 → 2 * n < (interval (s * blockSize + m)).high * den) := by
  rcases Nat.lt_or_eq_of_le hhigh with hlt | heq
  · have hend : (interval (s * blockSize + m)).high * den = (2 * m + 1) * (den * 2 ^ s) := by
      rw [high_of_significand hlow hlt]
      ring
    rw [hend]
    exact ⟨hle, hodd⟩
  · -- The quotient is below the magnitude itself.
    have hbelow : 2 * n < (interval (s * blockSize + m)).high * den := by
      calc 2 * n < 2 * (2 * blockSize * (den * 2 ^ s)) := Nat.mul_lt_mul_of_pos_left hn Nat.two_pos
        _ = 2 * units (s * blockSize + m) * den := by
            rw [units_of_significand hlow hhigh, heq]
            ring
        _ < (interval (s * blockSize + m)).high * den :=
            Nat.mul_lt_mul_of_pos_right (value_lt_high _) hden
    exact ⟨hbelow.le, fun _ => hbelow⟩

/-- A quotient that is rounded to a significand is within the lower end of its interval. -/
theorem within_low (hden : 0 < den) (hlow : s = 0 ∨ blockSize ≤ m) (hhigh : m ≤ 2 * blockSize)
    (hn : s = 0 ∨ blockSize * (den * 2 ^ s) ≤ n) (hle : 2 * m * (den * 2 ^ s) ≤ 2 * n + den * 2 ^ s)
    (hodd : m % 2 = 1 → 2 * m * (den * 2 ^ s) < 2 * n + den * 2 ^ s) :
    (interval (s * blockSize + m)).low * den ≤ 2 * n ∧
      (m % 2 = 1 → (interval (s * blockSize + m)).low * den < 2 * n) := by
  by_cases hinner : 0 < m ∧ (s = 0 ∨ blockSize < m)
  · have hend : (interval (s * blockSize + m)).low * den + den * 2 ^ s = 2 * m * (den * 2 ^ s) := by
      calc (interval (s * blockSize + m)).low * den + den * 2 ^ s
          = ((interval (s * blockSize + m)).low + 2 ^ s) * den := by ring
        _ = 2 * m * (den * 2 ^ s) := by
            rw [low_add_of_significand hinner.1 hinner.2 hhigh]
            ring
    omega
  · have hblock : 0 < blockSize := by decide
    rcases Nat.eq_zero_or_pos (s * blockSize + m) with hzero | hpos
    · have hend : (interval (s * blockSize + m)).low = 0 := by
        rw [hzero]
        rfl
      rw [hend, Nat.zero_mul]
      have hm : m = 0 := by omega
      exact ⟨Nat.zero_le _, fun h => by omega⟩
    · -- The quotient is not below the magnitude itself.
      have hs : s ≠ 0 := by
        rintro rfl
        omega
      have hm : m = blockSize := by omega
      have hleast := hn.resolve_left hs
      have habove : (interval (s * blockSize + m)).low * den < 2 * n := by
        calc (interval (s * blockSize + m)).low * den < 2 * units (s * blockSize + m) * den :=
              Nat.mul_lt_mul_of_pos_right (low_lt_value hpos) hden
          _ = 2 * (blockSize * (den * 2 ^ s)) := by
              rw [units_of_significand hlow hhigh, hm]
              ring
          _ ≤ 2 * n := Nat.mul_le_mul_left 2 hleast
      exact ⟨habove.le, fun _ => habove⟩

end Scaled

theorem units_zero : units 0 = 0 := by
  rfl

/-! ### The interval of the nearest rank -/

/-- The ends of an interval belong to it if the rank is even. -/
theorem contains_interval_iff {rank num den : Nat} :
    (interval rank).contains num den = true ↔
      ((interval rank).low * den ≤ num ∧ num ≤ (interval rank).high * den) ∧
        (rank % 2 = 1 → (interval rank).low * den < num ∧ num < (interval rank).high * den) := by
  have hclosed : (interval rank).closed = (rank % 2 == 0) := rfl
  rw [Interval.contains, hclosed]
  rcases Nat.mod_two_eq_zero_or_one rank with h | h
  · simp [h]
  · simp [h]
    omega

/-- A quotient lies in the interval of the rank that it is rounded to. -/
theorem contains_nearestRank (num : Nat) {den : Nat} (hden : 0 < den) :
    (interval (nearestRank num den)).contains (num * (2 * one)) den = true := by
  have hdouble : num * (2 * one) = 2 * (num * one) := by ring
  rw [hdouble, nearestRank_eq, contains_interval_iff]
  generalize num * one = n
  have hrest : n < den * (n / den + 1) := Nat.lt_mul_div_succ n hden
  have hbelow : n / den * den ≤ n := Nat.div_mul_le_self n den
  generalize n / den = q at hrest hbelow ⊢
  -- In units of its scale, the quotient is between the least and the greatest significand.
  have hscaled : 0 < den * 2 ^ scale q := Nat.mul_pos hden (Nat.two_pow_pos _)
  have hupper : n < 2 * blockSize * (den * 2 ^ scale q) := by
    calc n < den * (q + 1) := hrest
      _ ≤ den * (2 ^ scale q * (2 * blockSize)) := Nat.mul_le_mul_left den (lt_two_pow_scale q)
      _ = 2 * blockSize * (den * 2 ^ scale q) := by ring
  have hlower : scale q = 0 ∨ blockSize * (den * 2 ^ scale q) ≤ n := by
    rcases Nat.eq_zero_or_pos (scale q) with hzero | hpos
    · exact Or.inl hzero
    · right
      calc blockSize * (den * 2 ^ scale q) = 2 ^ scale q * blockSize * den := by ring
        _ ≤ q * den := Nat.mul_le_mul_right den (two_pow_scale_le hpos)
        _ ≤ n := hbelow
  have hm := roundHalfEven_le hscaled hupper.le
  have hleast := hlower.imp_right fun h => le_roundHalfEven hscaled h
  obtain ⟨⟨habove, hbelow⟩, hodd⟩ := @roundHalfEven_near n _ hscaled
  generalize roundHalfEven n (den * 2 ^ scale q) = m at hm hleast habove hbelow hodd ⊢
  have hparity : (scale q * blockSize + m) % 2 = m % 2 := by
    have hblock : blockSize = 4503599627370496 := rfl
    rw [hblock]
    omega
  have hwithinHigh := within_high hden hleast hm hupper habove fun h => (hodd h).1
  have hwithinLow := within_low hden hleast hm hlower hbelow fun h => (hodd h).2
  rw [hparity]
  exact ⟨⟨hwithinLow.1, hwithinHigh.1⟩, fun h => ⟨hwithinLow.2 h, hwithinHigh.2 h⟩⟩

/-- A quotient is rounded to the rank in whose interval it lies. -/
theorem nearestRank_eq_iff {num den rank : Nat} (hden : 0 < den) :
    nearestRank num den = rank ↔ (interval rank).contains (num * (2 * one)) den = true := by
  constructor
  · rintro rfl
    exact contains_nearestRank num hden
  · exact rank_eq_of_contains hden (contains_nearestRank num hden)

/-! ### The nearest value -/

/-- The magnitude of a rank. -/
def magnitude (rank : Nat) : ℚ := units rank / one

/-- A magnitude with a sign. -/
def signed (negative : Bool) (q : ℚ) : ℚ := if negative then -q else q

/-- The value of a finite number. -/
def value : Binary64 → ℚ
  | finite negative rank => signed negative (magnitude rank.val)
  | _ => 0

theorem magnitude_strictMono : StrictMono magnitude := by
  intro a b h
  have hone : (0 : ℚ) < one := Nat.cast_pos.mpr units_one_pos
  exact div_lt_div_of_pos_right (Nat.cast_lt.mpr (units_strictMono h)) hone

theorem magnitude_nonneg (rank : Nat) : 0 ≤ magnitude rank := by
  rw [magnitude]
  positivity

theorem magnitude_zero : magnitude 0 = 0 := by
  rw [magnitude, units_zero, Nat.cast_zero, zero_div]

/-- Whether a quotient is rounded to a rank: it lies between the midpoints to the neighbours of the rank, and
on one of them only if the rank is even. -/
structure RoundsTo (q : ℚ) (rank : Nat) : Prop where
  low : magnitude (rank - 1) + magnitude rank ≤ 2 * q
  high : 2 * q ≤ magnitude rank + magnitude (rank + 1)
  low_of_odd : rank % 2 = 1 → magnitude (rank - 1) + magnitude rank < 2 * q
  high_of_odd : rank % 2 = 1 → 2 * q < magnitude rank + magnitude (rank + 1)

section Midpoint

variable {a b num den : Nat}

/-- Midpoints and quotients are compared in half units. -/
theorem add_magnitude_le_iff (hden : 0 < den) :
    magnitude a + magnitude b ≤ 2 * ((num : ℚ) / den) ↔ (units a + units b) * den ≤ num * (2 * one) := by
  have hone : (0 : ℚ) < one := Nat.cast_pos.mpr units_one_pos
  have hden' : (0 : ℚ) < den := Nat.cast_pos.mpr hden
  rw [magnitude, magnitude, ← add_div, ← mul_div_assoc, div_le_div_iff₀ hone hden',
    mul_comm (2 : ℚ), mul_assoc]
  exact_mod_cast Iff.rfl

theorem le_add_magnitude_iff (hden : 0 < den) :
    2 * ((num : ℚ) / den) ≤ magnitude a + magnitude b ↔ num * (2 * one) ≤ (units a + units b) * den := by
  have hone : (0 : ℚ) < one := Nat.cast_pos.mpr units_one_pos
  have hden' : (0 : ℚ) < den := Nat.cast_pos.mpr hden
  rw [magnitude, magnitude, ← add_div, ← mul_div_assoc, div_le_div_iff₀ hden' hone,
    mul_comm (2 : ℚ), mul_assoc]
  exact_mod_cast Iff.rfl

theorem contains_iff_roundsTo {rank : Nat} (hden : 0 < den) :
    (interval rank).contains (num * (2 * one)) den = true ↔ RoundsTo ((num : ℚ) / den) rank := by
  have hlow : (interval rank).low = units (rank - 1) + units rank := rfl
  have hhigh : (interval rank).high = units rank + units (rank + 1) := rfl
  rw [contains_interval_iff, hlow, hhigh, ← not_le, ← not_le, ← add_magnitude_le_iff hden,
    ← add_magnitude_le_iff hden, ← le_add_magnitude_iff hden, ← le_add_magnitude_iff hden, not_le, not_le]
  exact ⟨fun ⟨⟨hl, hh⟩, hodd⟩ => ⟨hl, hh, fun h => (hodd h).1, fun h => (hodd h).2⟩,
    fun h => ⟨⟨h.low, h.high⟩, fun hodd => ⟨h.low_of_odd hodd, h.high_of_odd hodd⟩⟩⟩

end Midpoint

/-- Which of two points is the nearer one is decided by the side of the midpoint. -/
theorem abs_sub_le_abs_sub_iff {a b q : ℚ} :
    |q - a| ≤ |q - b| ↔ 0 ≤ (a - b) * (2 * q - (a + b)) := by
  have hdifference : (q - b) ^ 2 - (q - a) ^ 2 = (a - b) * (2 * q - (a + b)) := by ring
  rw [← sq_le_sq, ← hdifference, sub_nonneg]

theorem abs_sub_lt_abs_sub_iff {a b q : ℚ} :
    |q - a| < |q - b| ↔ 0 < (a - b) * (2 * q - (a + b)) := by
  have hdifference : (q - b) ^ 2 - (q - a) ^ 2 = (a - b) * (2 * q - (a + b)) := by ring
  rw [← sq_lt_sq, ← hdifference, sub_pos]

/-- No magnitude is nearer to a quotient than that of the rank which it is rounded to. Where that rank is
odd, every other one is farther. -/
theorem RoundsTo.near {q : ℚ} {r : Nat} (h : RoundsTo q r) (s : Nat) :
    |q - magnitude r| ≤ |q - magnitude s| ∧
      (s ≠ r → r % 2 = 1 → |q - magnitude r| < |q - magnitude s|) := by
  have hlow := h.low
  have hhigh := h.high
  rw [abs_sub_le_abs_sub_iff, abs_sub_lt_abs_sub_iff]
  rcases Nat.lt_trichotomy s r with hlt | rfl | hgt
  · have hs : magnitude s < magnitude r := magnitude_strictMono hlt
    have hbelow : magnitude s ≤ magnitude (r - 1) := magnitude_strictMono.monotone (Nat.le_sub_one_of_lt hlt)
    refine ⟨mul_nonneg (by linarith) (by linarith), fun _ hodd => ?_⟩
    exact mul_pos (by linarith) (by linarith [h.low_of_odd hodd])
  · simp
  · have hs : magnitude r < magnitude s := magnitude_strictMono hgt
    have habove : magnitude (r + 1) ≤ magnitude s := magnitude_strictMono.monotone hgt
    refine ⟨mul_nonneg_of_nonpos_of_nonpos (by linarith) (by linarith), fun _ hodd => ?_⟩
    exact mul_pos_of_neg_of_neg (by linarith) (by linarith [h.high_of_odd hodd])

theorem abs_signed_sub_signed (s t : Bool) (a b : ℚ) :
    |signed s a - signed t b| = if s = t then |a - b| else |a + b| := by
  cases s <;> cases t <;> simp only [signed, if_true, Bool.false_eq_true, if_false, reduceCtorEq]
  · rw [sub_neg_eq_add]
  · rw [← abs_neg, neg_sub, sub_neg_eq_add, add_comm]
  · rw [neg_sub_neg, abs_sub_comm]

end Binary64

namespace Decimal

open Binary64

/-- The value of a decimal without its sign. -/
def size (d : Decimal) : ℚ := (d.scaled : ℚ) / 10 ^ d.places

/-- The value of a decimal. -/
def value (d : Decimal) : ℚ := signed d.negative d.size

/-- The number that a decimal is rounded to: the nearest one, and of two that are equally near the one with
the even significand. Past the largest finite number it is an infinity. -/
def nearest (d : Decimal) : Binary64 := ofRatio d.negative d.scaled (10 ^ d.places)

theorem size_nonneg (d : Decimal) : 0 ≤ d.size := by
  rw [size]
  positivity

theorem roundsTo_size_iff {d : Decimal} {rank : Nat} :
    RoundsTo d.size rank ↔ nearestRank d.scaled (10 ^ d.places) = rank := by
  have hden : 0 < 10 ^ d.places := Nat.pow_pos (by decide)
  rw [nearestRank_eq_iff hden, contains_iff_roundsTo hden, size, Nat.cast_pow, Nat.cast_ofNat]

theorem nearest_eq_finite_iff {d : Decimal} {negative : Bool} {rank : Fin rankBound} :
    d.nearest = .finite negative rank ↔ d.negative = negative ∧ RoundsTo d.size rank := by
  rw [nearest, ofRatio, ofRank, roundsTo_size_iff]
  split
  next h => simp [Fin.ext_iff]
  next h =>
    constructor
    · intro heq
      cases heq
    · rintro ⟨-, heq⟩
      exact absurd rank.isLt (heq ▸ h)

/-- No finite number is nearer to a decimal than the one that it is rounded to. Where the rank of that one is
odd, every other one is farther. -/
theorem nearest_near {d : Decimal} {negative : Bool} {rank : Fin rankBound}
    (h : d.nearest = .finite negative rank) {y : Binary64} (hy : y.isFinite = true) :
    |d.value - d.nearest.value| ≤ |d.value - y.value| ∧
      (y.value ≠ d.nearest.value → rank.val % 2 = 1 →
        |d.value - d.nearest.value| < |d.value - y.value|) := by
  obtain ⟨rfl, hrounds⟩ := nearest_eq_finite_iff.mp h
  have hq := d.size_nonneg
  rw [h]
  cases y with
  | nan | infinite => cases hy
  | finite t s =>
      rw [value, Binary64.value, Binary64.value, abs_signed_sub_signed, abs_signed_sub_signed, if_pos rfl]
      generalize d.size = q at hrounds hq ⊢
      have hs := magnitude_nonneg s.val
      by_cases hsign : d.negative = t
      · rw [if_pos hsign, hsign]
        refine ⟨(hrounds.near s.val).1, fun hne => (hrounds.near s.val).2 fun heq => hne ?_⟩
        rw [heq]
      · -- A number of the other sign is no nearer than zero.
        have hsum : |q + magnitude s.val| = q + magnitude s.val := abs_of_nonneg (by linarith)
        have hzero : |q - magnitude 0| = q := by rw [magnitude_zero, sub_zero, abs_of_nonneg hq]
        rw [if_neg hsign, hsum]
        refine ⟨(hrounds.near 0).1.trans (by linarith), fun _ hodd => ?_⟩
        have hlt := (hrounds.near 0).2 (by omega) hodd
        linarith

end Decimal
end SheetFormula

import Mathlib.Tactic.Ring
import SheetFormula.Decimal

/-! The decimals that round to a rank. Magnitudes grow with the rank, so the intervals of two ranks have
at most an end in common, and then the ranks are neighbours, of which one is odd and leaves its ends
out. The shortest decimal of a rank lies in its interval, and so in that of no other rank. -/

namespace SheetFormula

/-- How many digits of a numeral are behind the point. -/
def Decimal.places (d : Decimal) : Nat := (-d.power).toNat

/-- The number that the digits make, with the zeros that a power of ten adds to them. -/
def Decimal.scaled (d : Decimal) : Nat := d.digits * 10 ^ d.power.toNat

namespace Binary64

/-! ### Magnitudes -/

/-- From a rank to the next one the magnitude grows by the scale of the rank. -/
theorem units_succ (rank : Nat) : units (rank + 1) = units rank + 2 ^ exponent rank := by
  have hblock : blockSize = 4503599627370496 := rfl
  have hle : exponent rank * blockSize ≤ rank := by
    rw [exponent, hblock]
    omega
  have hstep : exponent (rank + 1) = exponent rank ∨
      exponent (rank + 1) = exponent rank + 1 ∧ rank + 1 = (exponent rank + 2) * blockSize := by
    rw [exponent, exponent, hblock]
    omega
  rcases hstep with hsame | ⟨hnext, hrank⟩
  · have hsignificand : significand (rank + 1) = significand rank + 1 := by
      rw [significand, significand, hsame]
      omega
    rw [units, units, hsame, hsignificand, Nat.add_mul, Nat.one_mul]
    rfl
  · -- The last significand of a block is followed by the first one of the next, half as large.
    have hlast : significand rank + 1 = 2 * blockSize := by
      rw [hblock] at hrank
      rw [significand, hblock]
      omega
    have hfirst : significand (rank + 1) = blockSize := by
      rw [significand, hnext, hrank, hblock]
      omega
    calc units (rank + 1) = blockSize * 2 ^ (exponent rank + 1) := by
          rw [units, hfirst, hnext]
          rfl
      _ = (significand rank + 1) * 2 ^ exponent rank := by
          rw [hlast]
          ring
      _ = units rank + 2 ^ exponent rank := by
          rw [Nat.add_mul, Nat.one_mul]
          rfl

theorem units_lt_succ (rank : Nat) : units rank < units (rank + 1) := by
  rw [units_succ]
  exact Nat.lt_add_of_pos_right (Nat.two_pow_pos _)

theorem units_strictMono : StrictMono units := strictMono_nat_of_lt_succ units_lt_succ

/-! ### Intervals -/

theorem low_lt_value {rank : Nat} (h : 0 < rank) : (interval rank).low < (interval rank).value := by
  have : units (rank - 1) < units rank := units_strictMono (Nat.sub_lt h Nat.one_pos)
  show units (rank - 1) + units rank < 2 * units rank
  omega

theorem value_lt_high (rank : Nat) : (interval rank).value < (interval rank).high := by
  have := units_lt_succ rank
  show 2 * units rank < units rank + units (rank + 1)
  omega

theorem Interval.le_of_contains {i : Interval} {num den : Nat} (h : i.contains num den = true) :
    i.low * den ≤ num ∧ num ≤ i.high * den := by
  rw [contains] at h
  split at h
  · simpa using h
  · have : i.low * den < num ∧ num < i.high * den := by simpa using h
    omega

theorem Interval.lt_of_contains {i : Interval} {num den : Nat} (hclosed : i.closed = false)
    (h : i.contains num den = true) : i.low * den < num ∧ num < i.high * den := by
  simpa [contains, hclosed] using h

theorem high_le_low {a b : Nat} (h : a < b) : (interval a).high ≤ (interval b).low := by
  have hbelow : units a ≤ units (b - 1) := units_strictMono.monotone (Nat.le_sub_one_of_lt h)
  have habove : units (a + 1) ≤ units b := units_strictMono.monotone h
  exact Nat.add_le_add hbelow habove

theorem high_lt_low {a b : Nat} (h : a + 1 < b) : (interval a).high < (interval b).low := by
  have hbelow : units a < units (b - 1) := units_strictMono (by omega)
  have habove : units (a + 1) ≤ units b := units_strictMono.monotone (by omega)
  exact Nat.add_lt_add_of_lt_of_le hbelow habove

theorem not_contains_of_lt {a b num den : Nat} (h : a < b) (hden : 0 < den)
    (ha : (interval a).contains num den = true) : (interval b).contains num den = false := by
  rw [Bool.eq_false_iff]
  intro hb
  have hhigh := (Interval.le_of_contains ha).2
  have hlow := (Interval.le_of_contains hb).1
  have hle := Nat.mul_le_mul_right den (high_le_low h)
  by_cases hnext : b = a + 1
  · have hodd : a % 2 = 1 ∨ b % 2 = 1 := by omega
    rcases hodd with hodd | hodd
    · have hclosed : (interval a).closed = false := by simp [interval, hodd]
      have := (Interval.lt_of_contains hclosed ha).2
      omega
    · have hclosed : (interval b).closed = false := by simp [interval, hodd]
      have := (Interval.lt_of_contains hclosed hb).1
      omega
  · have := Nat.mul_lt_mul_of_pos_right (high_lt_low (show a + 1 < b by omega)) hden
    omega

/-- No decimal rounds to two ranks. -/
theorem rank_eq_of_contains {a b num den : Nat} (hden : 0 < den)
    (ha : (interval a).contains num den = true) (hb : (interval b).contains num den = true) :
    a = b := by
  rcases Nat.lt_trichotomy a b with h | h | h
  · rw [not_contains_of_lt h hden ha] at hb
    cases hb
  · exact h
  · rw [not_contains_of_lt h hden hb] at ha
    cases ha

/-! ### The shortest decimal -/

theorem Interval.contains_of_lt {i : Interval} {num den : Nat} (hlow : i.low * den < num)
    (hhigh : num < i.high * den) : i.contains num den = true := by
  rw [contains]
  split
  · simp [hlow.le, hhigh.le]
  · simp [hlow, hhigh]

/-- Whether a numeral lies in an interval, whatever its sign. -/
def Interval.Holds (i : Interval) (d : Decimal) : Prop :=
  i.contains (d.scaled * (2 * one)) (10 ^ d.places) = true

theorem Interval.holds_iff {i : Interval} {negative : Bool} {digits : Nat} {power : Int} :
    i.Holds ⟨negative, digits, power⟩ ↔
      i.contains (digits * (2 * one * Nat.pow 10 power.toNat)) (Nat.pow 10 (-power).toNat) = true := by
  have hnum : digits * 10 ^ power.toNat * (2 * one) = digits * (2 * one * Nat.pow 10 power.toNat) := by
    rw [Nat.mul_assoc, Nat.mul_comm (10 ^ power.toNat)]
    rfl
  rw [Holds, Decimal.scaled, hnum]
  rfl

theorem Interval.holds_of_hit? {i : Interval} {negative : Bool} {digits : Nat} {power : Int}
    (h : i.hit? power = some digits) : i.Holds ⟨negative, digits, power⟩ := by
  rw [hit?] at h
  rw [holds_iff]
  generalize 2 * one * Nat.pow 10 power.toNat = step at h ⊢
  generalize Nat.pow 10 (-power).toNat = den at h ⊢
  have hmem : ∀ n, i.contains (n * step) den = true → some n = some digits →
      i.contains (digits * step) den = true := by
    intro n hn hdigits
    rwa [Option.some.inj hdigits] at hn
  split at h
  next hbelow habove =>
    split at h
    · exact hmem _ hbelow h
    · exact hmem _ habove h
  next hbelow _ => exact hmem _ hbelow h
  next _ habove => exact hmem _ habove h
  next => cases h

/-- What is counted in units of `2 ^ -k` is on the grid of `10 ^ -k`. -/
theorem div_mul_grid {unit k : Nat} (hunit : unit = Nat.pow 2 k) (value : Nat) :
    2 * value * Nat.pow 10 k / (2 * unit) * (2 * unit) = 2 * value * Nat.pow 10 k := by
  have hten : Nat.pow 10 k = unit * 5 ^ k := by
    rw [hunit]
    exact Nat.mul_pow 2 5 k
  apply Nat.div_mul_cancel
  rw [hten]
  exact ⟨value * 5 ^ k, by ring⟩

/-- On the finest grid lies the number itself. -/
theorem holds_finest {rank : Nat} (h : 0 < rank) (negative : Bool) :
    (interval rank).Holds
      ⟨negative, ((interval rank).firstHit 0).1, ((interval rank).firstHit 0).2⟩ := by
  obtain ⟨k, hk, hone⟩ : ∃ k, k = 1074 ∧ one = Nat.pow 2 k := by
    refine ⟨1074, rfl, ?_⟩
    unfold one
    exact Eq.refl _
  have hscale : Nat.pow 10 finestPower.toNat = 1 := rfl
  have hden : (-finestPower).toNat = 1074 := rfl
  have hvalue : (interval rank).value = 2 * units rank := rfl
  have hpos : 0 < Nat.pow 10 k := Nat.pow_pos (by decide)
  rw [Interval.holds_iff, Interval.firstHit, hscale, Nat.mul_one, hden, ← hk, hvalue,
    div_mul_grid hone, ← hvalue]
  exact Interval.contains_of_lt (Nat.mul_lt_mul_of_pos_right (low_lt_value h) hpos)
    (Nat.mul_lt_mul_of_pos_right (value_lt_high rank) hpos)

theorem holds_firstHit {rank : Nat} (h : 0 < rank) (negative : Bool) (n : Nat) :
    (interval rank).Holds
      ⟨negative, ((interval rank).firstHit n).1, ((interval rank).firstHit n).2⟩ := by
  induction n with
  | zero => exact holds_finest h negative
  | succ n ih =>
      rw [Interval.firstHit]
      cases hhit : (interval rank).hit? (finestPower + (n + 1 : Nat)) with
      | some digits => exact Interval.holds_of_hit? hhit
      | none => exact ih

theorem holds_shortest {rank : Nat} (h : 0 < rank) (negative : Bool) :
    (interval rank).Holds (shortest negative rank) := by
  rw [shortest, if_neg h.ne']
  exact holds_firstHit h negative gridCount

end Binary64
end SheetFormula

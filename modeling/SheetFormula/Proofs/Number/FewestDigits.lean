import Mathlib.Algebra.Order.Field.Power
import SheetFormula.Proofs.Number.Nearest
import SheetFormula.Proofs.Text.Positional

/-! The shortest decimal has the fewest digits. Its grid is the coarsest one with a point that is rounded to the
rank (`not_roundsTo_of_coarser`): of a grid with any such point, one of the two points around the magnitude
itself is another, and the grids are tried from coarse to fine. A decimal with fewer digits would be on a
finer grid and on the other side of a power of ten, and that power would be on a coarser grid. -/

namespace SheetFormula

namespace Decimal

/-! ### The size of a decimal -/

theorem ten_zpow_eq (p : Int) : (10 : ℚ) ^ p = 10 ^ p.toNat / 10 ^ (-p).toNat := by
  cases p with
  | ofNat n => simp
  | negSucc n => simp [zpow_negSucc]

theorem size_eq (d : Decimal) : d.size = d.digits * 10 ^ d.power := by
  rw [size, scaled, places, ten_zpow_eq, Nat.cast_mul, Nat.cast_pow, Nat.cast_ofNat, mul_div_assoc]

end Decimal

namespace Binary64

open Decimal

/-! ### Points of grids -/

theorem RoundsTo.of_between {a b q : ℚ} {rank : Nat} (ha : RoundsTo a rank) (hb : RoundsTo b rank)
    (haq : a ≤ q) (hqb : q ≤ b) : RoundsTo q rank where
  low := by linarith [ha.low]
  high := by linarith [hb.high]
  low_of_odd h := by linarith [ha.low_of_odd h]
  high_of_odd h := by linarith [hb.high_of_odd h]

section Grid

variable {rank n : Nat} {p : Int}

theorem roundsTo_magnitude (h : 0 < rank) : RoundsTo (magnitude rank) rank := by
  have hbelow : magnitude (rank - 1) < magnitude rank := magnitude_strictMono (Nat.sub_lt h Nat.one_pos)
  have habove : magnitude rank < magnitude (rank + 1) := magnitude_strictMono (Nat.lt_succ_self rank)
  constructor <;> intros <;> linarith

theorem holds_iff_roundsTo {d : Decimal} : (interval rank).Holds d ↔ RoundsTo d.size rank := by
  rw [Interval.Holds, contains_iff_roundsTo (Nat.pow_pos (by decide)), size, Nat.cast_pow, Nat.cast_ofNat]

/-- The points of a grid are compared with a magnitude in half units. -/
theorem grid_le_magnitude_iff :
    (n : ℚ) * 10 ^ p ≤ magnitude rank ↔
      n * (2 * one * Nat.pow 10 p.toNat) ≤ (interval rank).value * Nat.pow 10 (-p).toNat := by
  have hone : (0 : ℚ) < one := Nat.cast_pos.mpr units_one_pos
  have hden : (0 : ℚ) < 10 ^ (-p).toNat := by positivity
  have hpoint : n * (2 * one * Nat.pow 10 p.toNat) = 2 * (n * 10 ^ p.toNat * one) := by
    show n * (2 * one * 10 ^ p.toNat) = 2 * (n * 10 ^ p.toNat * one)
    ring
  have hvalue : (interval rank).value * Nat.pow 10 (-p).toNat = 2 * (units rank * 10 ^ (-p).toNat) :=
    Nat.mul_assoc ..
  rw [ten_zpow_eq, magnitude, ← mul_div_assoc, div_le_div_iff₀ hden hone, hpoint, hvalue,
    Nat.mul_le_mul_left_iff Nat.two_pos]
  exact_mod_cast Iff.rfl

/-- The greatest point of a grid that is not above the value of an interval. -/
def Interval.below (i : Interval) (p : Int) : Nat :=
  i.value * Nat.pow 10 (-p).toNat / (2 * one * Nat.pow 10 p.toNat)

theorem below_le_magnitude : ((interval rank).below p : ℚ) * 10 ^ p ≤ magnitude rank := by
  rw [grid_le_magnitude_iff, Interval.below]
  exact Nat.div_mul_le_self _ _

theorem magnitude_lt_above : magnitude rank < ((interval rank).below p + 1 : Nat) * (10 : ℚ) ^ p := by
  have hstep : 0 < 2 * one * Nat.pow 10 p.toNat :=
    Nat.mul_pos (Nat.mul_pos Nat.two_pos units_one_pos) (Nat.pow_pos (by decide))
  rw [← not_le, grid_le_magnitude_iff, Nat.not_le, Interval.below]
  generalize 2 * one * Nat.pow 10 p.toNat = step at hstep ⊢
  rw [Nat.mul_comm _ step]
  exact Nat.lt_mul_div_succ _ hstep

/-- Where the search on a grid finds nothing, neither of the two points around the value is rounded to it. -/
theorem not_roundsTo_around (h : (interval rank).hit? p = none) :
    ¬ RoundsTo ((interval rank).below p * 10 ^ p) rank ∧
      ¬ RoundsTo (((interval rank).below p + 1 : Nat) * 10 ^ p) rank := by
  have hpoint (k : Nat) : RoundsTo ((k : ℚ) * 10 ^ p) rank ↔ (interval rank).contains
      (k * (2 * one * Nat.pow 10 p.toNat)) (Nat.pow 10 (-p).toNat) = true := by
    rw [← @Interval.holds_iff _ false, holds_iff_roundsTo, size_eq]
  rw [hpoint, hpoint, Interval.below]
  rw [Interval.hit?] at h
  split at h
  next => split at h <;> cases h
  next => cases h
  next => cases h
  next hbelow habove => exact ⟨Bool.eq_false_iff.mp hbelow, Bool.eq_false_iff.mp habove⟩

theorem grid_mono {m : Nat} (h : n ≤ m) : (n : ℚ) * 10 ^ p ≤ m * 10 ^ p :=
  mul_le_mul_of_nonneg_right (Nat.cast_le.mpr h) (by positivity)

/-- If any point of a grid is rounded to a rank, then the search on this grid finds one. -/
theorem not_roundsTo_of_hit?_eq_none (hpos : 0 < rank) (h : (interval rank).hit? p = none) (n : Nat) :
    ¬ RoundsTo ((n : ℚ) * 10 ^ p) rank := by
  intro hn
  obtain ⟨hbelow, habove⟩ := not_roundsTo_around h
  rcases Nat.lt_or_ge (interval rank |>.below p) n with hlt | hge
  · exact habove ((roundsTo_magnitude hpos).of_between hn magnitude_lt_above.le (grid_mono hlt))
  · exact hbelow (hn.of_between (roundsTo_magnitude hpos) (grid_mono hge) below_le_magnitude)

end Grid

/-! ### The coarsest grid with a point -/

/-- The search finds a point of some grid, and nothing on the coarser ones. -/
theorem firstHit_coarsest (i : Interval) (n : Nat) :
    (i.firstHit n).2 ≤ finestPower + n ∧
      ∀ p, (i.firstHit n).2 < p → p ≤ finestPower + n → i.hit? p = none := by
  induction n with
  | zero =>
      refine ⟨Int.le_add_of_nonneg_right (Int.natCast_nonneg 0), fun p hlt hle => ?_⟩
      rw [Interval.firstHit] at hlt
      omega
  | succ n ih =>
      rw [Interval.firstHit]
      cases hhit : i.hit? (finestPower + (n + 1 : Nat)) with
      | some digits => exact ⟨Int.le_refl _, fun p hlt hle => absurd hlt (Int.not_lt.mpr hle)⟩
      | none =>
          refine ⟨by have := ih.1; dsimp only; omega, fun p hlt hle => ?_⟩
          rcases Int.lt_or_eq_of_le hle with hless | rfl
          · exact ih.2 p hlt (by omega)
          · exact hhit

theorem magnitude_pos {rank : Nat} (h : 0 < rank) : 0 < magnitude rank :=
  magnitude_zero ▸ magnitude_strictMono h

theorem not_roundsTo_zero {rank : Nat} (h : 0 < rank) : ¬ RoundsTo 0 rank := by
  intro hzero
  linarith [hzero.low, magnitude_pos h, magnitude_nonneg (rank - 1)]

/-- The coarsest grid has a step past every finite number. -/
theorem magnitude_rankBound_le : magnitude rankBound ≤ 10 ^ (finestPower + gridCount) := by
  have hunits : units rankBound ≤ 10 ^ 309 * one := by decide +kernel
  have hone : (0 : ℚ) < one := Nat.cast_pos.mpr units_one_pos
  have hpower : finestPower + gridCount = (309 : Nat) := rfl
  rw [hpower, zpow_natCast, magnitude, div_le_iff₀ hone]
  exact_mod_cast hunits

/-- No point of the coarsest grid or of a coarser one is rounded to a finite rank. -/
theorem not_roundsTo_of_coarse {rank : Nat} {p : Int} (hpos : 0 < rank) (hrank : rank < rankBound)
    (hp : finestPower + gridCount ≤ p) (n : Nat) : ¬ RoundsTo ((n : ℚ) * 10 ^ p) rank := by
  intro h
  rcases Nat.eq_zero_or_pos n with rfl | hn
  · rw [Nat.cast_zero, zero_mul] at h
    exact not_roundsTo_zero hpos h
  · have hstep : (10 : ℚ) ^ (finestPower + gridCount) ≤ 10 ^ p := zpow_le_zpow_right₀ (by norm_num) hp
    have hpoint : (1 : ℚ) * 10 ^ p ≤ n * 10 ^ p := by
      rw [← Nat.cast_one]
      exact grid_mono hn
    have hnext : magnitude (rank + 1) ≤ magnitude rankBound := magnitude_strictMono.monotone hrank
    have hlt : magnitude rank < magnitude (rank + 1) := magnitude_strictMono (Nat.lt_succ_self rank)
    linarith [h.high, magnitude_rankBound_le]

theorem roundsTo_shortest {rank : Nat} (hpos : 0 < rank) (negative : Bool) :
    RoundsTo (shortest negative rank).size rank :=
  holds_iff_roundsTo.mp (holds_shortest hpos negative)

section Shortest

variable {rank : Nat} (hpos : 0 < rank) (hrank : rank < rankBound) (negative : Bool)

include hpos hrank

/-- No point of a coarser grid than that of the shortest decimal is rounded to the rank. -/
theorem not_roundsTo_of_coarser {p : Int} (hp : (shortest negative rank).power < p) (n : Nat) :
    ¬ RoundsTo ((n : ℚ) * 10 ^ p) rank := by
  rw [shortest, if_neg hpos.ne'] at hp
  rcases Int.lt_or_le (finestPower + gridCount) p with hcoarse | hle
  · exact not_roundsTo_of_coarse hpos hrank hcoarse.le n
  · exact not_roundsTo_of_hit?_eq_none hpos ((firstHit_coarsest _ _).2 p hp hle) n

/-- The last digit of the shortest decimal is not a zero. -/
theorem shortest_digits_mod_ten : (shortest negative rank).digits % 10 ≠ 0 := by
  intro hzero
  have hten : (shortest negative rank).digits = (shortest negative rank).digits / 10 * 10 := by omega
  have hrounds := roundsTo_shortest hpos negative
  rw [size_eq, hten, Nat.cast_mul, mul_assoc, Nat.cast_ofNat, ← zpow_one_add₀ (by norm_num)] at hrounds
  exact not_roundsTo_of_coarser hpos hrank negative (by omega) _ hrounds

/-- The shortest decimal has no more digits than any other decimal that is rounded to the rank. -/
theorem shortest_digits_lt {n k : Nat} {p : Int} (hn : n < 10 ^ k) (h : RoundsTo ((n : ℚ) * 10 ^ p) rank) :
    (shortest negative rank).digits < 10 ^ k := by
  by_contra hge
  have hrounds := roundsTo_shortest hpos negative
  have hcoarser {p : Int} := not_roundsTo_of_coarser hpos hrank negative (p := p)
  rw [size_eq] at hrounds
  generalize (shortest negative rank).digits = digits at hge hrounds
  generalize (shortest negative rank).power = power at hcoarser hrounds
  rcases Nat.eq_zero_or_pos k with rfl | hk
  · rw [Nat.lt_one_iff.mp hn, Nat.cast_zero, zero_mul] at h
    exact not_roundsTo_zero hpos h
  · -- The power of ten between the two decimals is rounded to the rank as well.
    have hp : p ≤ power := Int.not_lt.mp fun hlt => hcoarser hlt n h
    have hbelow : (n : ℚ) * 10 ^ p ≤ (10 ^ k : Nat) * 10 ^ power := by
      calc (n : ℚ) * 10 ^ p ≤ (10 ^ k : Nat) * 10 ^ p := grid_mono hn.le
        _ ≤ (10 ^ k : Nat) * 10 ^ power :=
            mul_le_mul_of_nonneg_left (zpow_le_zpow_right₀ (by norm_num) hp) (Nat.cast_nonneg _)
    have hpower := h.of_between hrounds hbelow (grid_mono (Nat.not_lt.mp hge))
    have hone : ((10 ^ k : Nat) : ℚ) * 10 ^ power = (1 : Nat) * 10 ^ (k + power) := by
      rw [zpow_add₀ (by norm_num), zpow_natCast, Nat.cast_one, one_mul, Nat.cast_pow, Nat.cast_ofNat]
    rw [hone] at hpower
    exact hcoarser (by omega) 1 hpower

/-- No decimal that is rounded to the rank has fewer significant digits than the shortest one. -/
theorem significantDigits_shortest_le {d : Decimal} (h : RoundsTo d.size rank) :
    significantDigits (shortest negative rank).digits ≤ significantDigits d.digits := by
  obtain ⟨m, j, heq, hlt⟩ := exists_eq_mul_ten_pow d.digits
  apply significantDigits_le
  apply shortest_digits_lt hpos hrank negative hlt (p := j + d.power)
  rw [size_eq, heq, Nat.cast_mul, Nat.cast_pow, Nat.cast_ofNat, mul_assoc, ← zpow_natCast,
    ← zpow_add₀ (by norm_num)] at h
  exact h

end Shortest

end Binary64

end SheetFormula

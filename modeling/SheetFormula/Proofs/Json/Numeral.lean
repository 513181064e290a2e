import SheetFormula.Json.Numeral
import SheetFormula.Proofs.Number.Rounding

/-! Every number literal that is read is a finite number. The significand is below a bound that is far
from the greatest number, so it is rounded to a finite number; a power of ten that multiplies it may lead
out of the finite numbers, and then there is no value; one that divides it cannot. -/

namespace SheetFormula
namespace Json
namespace Numeral

open Binary64

theorem absorb_lt {bound n : Nat} (h : n < bound) (ds : List Nat) : (absorb bound n ds).1 < bound := by
  induction ds generalizing n with
  | nil => exact h
  | cons d ds ih =>
      rw [absorb]
      split
      next hlt => exact ih hlt
      next => exact h

theorem isFinite_significand {n : Nat} (h : n < significandBound) :
    (Binary64.ofNat n).isFinite = true := by
  have hbound : significandBound * one ≤ units greatestRank := by decide +kernel
  exact isFinite_ofNat ((Nat.mul_le_mul_right one h.le).trans hbound)

theorem isFinite_div_powerOfTen {x : Binary64} {n : Nat} (hx : x.isFinite = true)
    (h : n ≤ greatestPower) : (x.div (powerOfTen n)).isFinite = true := by
  have hbound : 10 ^ greatestPower * one ≤ units greatestRank := by decide +kernel
  have hpow : 10 ^ n ≤ 10 ^ greatestPower := Nat.pow_le_pow_right (by decide) h
  exact isFinite_div_ofNat hx (Nat.pow_pos (by decide)) ((Nat.mul_le_mul_right one hpow).trans hbound)

theorem isFinite_scaleDown {x : Binary64} {last : Nat} (hx : x.isFinite = true)
    (h : last ≤ greatestPower) (steps : Nat) : (scaleDown last steps x).isFinite = true := by
  induction steps generalizing x with
  | zero => exact isFinite_div_powerOfTen hx h
  | succ n ih =>
      rw [scaleDown]
      split
      · exact hx
      · exact ih (isFinite_div_powerOfTen hx (Nat.le_refl _))

theorem isFinite_scale {significand : Nat} {power : Int} {x : Binary64}
    (hsignificand : significand < significandBound) (h : scale significand power = some x) :
    x.isFinite = true := by
  have hfinite := isFinite_significand hsignificand
  cases power with
  | ofNat n =>
      rw [scale] at h
      split at h
      next =>
        split at h <;> cases h
        exact hfinite
      next =>
        obtain ⟨hproduct, h⟩ := Option.ite_none_right_eq_some.mp h
        cases h
        exact hproduct
  | negSucc n =>
      cases h
      have hlast : n + 1 - greatestPower * (n / greatestPower) ≤ greatestPower := by
        have hdivision := Nat.div_add_mod n greatestPower
        have hrest := Nat.mod_lt n (show 0 < greatestPower by decide)
        omega
      exact isFinite_scaleDown hfinite hlast _

/-- A number with the sign of a literal. -/
theorem isFinite_signed {x : Binary64} (h : x.isFinite = true) (negative : Bool) :
    (if negative then x.neg else x).isFinite = true := by
  cases negative with
  | false => exact h
  | true => exact isFinite_neg h

theorem isFinite_value {n : Numeral} {x : Binary64} (h : n.value = .ok x) : x.isFinite = true := by
  rw [value] at h
  have hinteger := absorb_lt (show 0 < significandBound by decide) n.integer
  have hsignificand := absorb_lt hinteger n.fraction
  have hscaled {power : Int} {y : Binary64}
      (hy : scale (absorb significandBound (absorb significandBound 0 n.integer).1 n.fraction).1 power =
        some y) : (if n.negative then y.neg else y).isFinite = true :=
    isFinite_signed (isFinite_scale hsignificand hy) n.negative
  dsimp only at h
  split at h
  next =>
    split at h
    next =>
      cases h
      exact isFinite_signed (isFinite_significand hsignificand) n.negative
    next =>
      split at h <;> cases h
      next hy => exact hscaled hy
  next =>
    split at h
    next =>
      split at h <;> cases h
      next hy => exact hscaled hy
    next =>
      split at h <;> cases h
      exact isFinite_signed rfl n.negative

end Numeral

theorem isFinite_of_readNumber {s : List Char} {x : Binary64} {width : Nat}
    (h : readNumber s = .ok (x, width)) : x.isFinite = true := by
  rw [readNumber] at h
  cases hread : Numeral.read s with
  | error f =>
      rw [hread] at h
      cases h
  | ok result =>
      obtain ⟨n, rest⟩ := result
      rw [hread] at h
      dsimp only [bind, Except.bind] at h
      cases hvalue : n.value with
      | error unread =>
          rw [hvalue] at h
          cases h
      | ok y =>
          rw [hvalue] at h
          cases h
          exact Numeral.isFinite_value hvalue

end Json
end SheetFormula

import SheetFormula.Proofs.Equality.Numeric
import SheetFormula.Proofs.Number.FewestDigits

/-! Number literals read back. The text of a finite number is a sign, digits, and a point with more digits
where there is a fraction; it has no exponent and no zero that could be left out. Read as a decimal and
rounded it gives the number again, and no decimal with fewer significant digits does. So the text of a number
tells all of it but the sign of a zero. -/

namespace SheetFormula
namespace Decimal

/-- Reading the text of a decimal and rounding it is rounding the decimal. -/
theorem nearest_positional (d : Decimal) : d.positional.decimal.nearest = d.nearest := by
  obtain ⟨hnegative, hdigits, hpower⟩ := d.decimal_positional
  have hplaces : d.positional.decimal.places = d.places := by
    rw [places, hpower, Int.neg_neg, Int.toNat_natCast]
  have hscaled : d.positional.decimal.scaled = d.scaled := by
    have hexponent : (-(d.places : Int)).toNat = 0 := by omega
    rw [scaled, hpower, hdigits, hexponent, Nat.pow_zero, Nat.mul_one]
  rw [nearest, nearest, hnegative, hplaces, hscaled]

theorem significantDigits_positional (d : Decimal) :
    significantDigits d.positional.decimal.digits = significantDigits d.digits := by
  rw [d.decimal_positional.2.1, scaled, significantDigits_mul_ten_pow]

/-- Whether a numeral is the one for a number: it has no zero that could be left out and the sign of the
number, it is rounded to the number, to which no other one is nearer, and no decimal with fewer significant
digits is. -/
structure Positional.Denotes (p : Positional) (x : Binary64) : Prop where
  canonical : p.Canonical
  negative_iff : p.negative = true ↔ x.value < 0
  nearest : p.decimal.nearest.numEq x = true
  near : ∀ y : Binary64, y.isFinite = true → |p.decimal.value - x.value| ≤ |p.decimal.value - y.value|
  fewest : ∀ d : Decimal, d.nearest.numEq x = true →
    significantDigits p.decimal.digits ≤ significantDigits d.digits

end Decimal

namespace Binary64

open Decimal

/-! ### The text of a number -/

theorem value_zero (negative : Bool) (h : 0 < rankBound) : (finite negative ⟨0, h⟩).value = 0 := by
  cases negative <;> simp [value, signed, magnitude_zero]

theorem nearest_zero (h : 0 < rankBound) :
    (⟨false, ['0'], []⟩ : Positional).decimal.nearest = finite false ⟨0, h⟩ := by
  have hzero : RoundsTo (⟨false, 0, 0⟩ : Decimal).size 0 := by
    have hsize : (⟨false, 0, 0⟩ : Decimal).size = 0 := by rw [size_eq, Nat.cast_zero, zero_mul]
    have hone : 0 < magnitude 1 := magnitude_pos Nat.one_pos
    rw [hsize]
    constructor <;> simp [magnitude_zero, hone.le]
  exact nearest_eq_finite_iff.mpr ⟨rfl, hzero⟩

/-- A zero has no sign, and every numeral has at least as many significant digits. -/
theorem denotes_zero (negative : Bool) (h : 0 < rankBound) :
    Positional.Denotes ⟨false, ['0'], []⟩ (finite negative ⟨0, h⟩) where
  canonical := ⟨List.cons_ne_nil _ _, List.forall_mem_singleton.mpr rfl, nofun, Or.inl rfl, nofun⟩
  negative_iff := by
    rw [value_zero]
    simp
  nearest := by
    rw [nearest_zero h]
    simp [numEq]
  near y hy := by
    have hnear := (nearest_near (nearest_zero h) hy).1
    rwa [nearest_zero h, value_zero, ← value_zero negative h] at hnear
  fewest _ _ := Nat.zero_le _

section Positive

variable {rank : Fin rankBound} (h : 0 < rank.val) (negative : Bool)

include h

theorem value_neg_iff : (finite negative rank).value < 0 ↔ negative = true := by
  have hpos := magnitude_pos h
  cases negative with
  | false => simpa [value, signed] using hpos.le
  | true => simpa [value, signed] using hpos

theorem numEq_iff_eq {x : Binary64} : x.numEq (finite negative rank) = true ↔ x = finite negative rank := by
  cases x with
  | nan | infinite => simp [numEq]
  | finite s a =>
      simp only [numEq, Bool.and_eq_true, Bool.or_eq_true, beq_iff_eq, finite.injEq]
      constructor
      · rintro ⟨rfl, hsign⟩
        exact ⟨hsign.resolve_right h.ne', rfl⟩
      · rintro ⟨rfl, rfl⟩
        exact ⟨rfl, Or.inl rfl⟩

theorem nearest_shortest : (shortest negative rank).positional.decimal.nearest = finite negative rank := by
  rw [nearest_positional, nearest_eq_finite_iff]
  exact ⟨negative_shortest h negative, roundsTo_shortest h negative⟩

theorem denotes_shortest : (shortest negative rank).positional.Denotes (finite negative rank) where
  canonical := canonical_positional (shortest_digits_mod_ten h rank.isLt negative)
  negative_iff := by
    rw [negative_positional, negative_shortest h, value_neg_iff h]
  nearest := (numEq_iff_eq h negative).mpr (nearest_shortest h negative)
  near y hy := by
    have hnear := (nearest_near (nearest_shortest h negative) hy).1
    rwa [nearest_shortest h negative] at hnear
  fewest d hd := by
    rw [numEq_iff_eq h, nearest_eq_finite_iff] at hd
    rw [significantDigits_positional]
    exact significantDigits_shortest_le h rank.isLt negative hd.2

end Positive

theorem numEq_zero_of_isZero {x : Binary64} (h : x.isZero = true) : x.numEq zero = true := by
  cases x with
  | nan | infinite => cases h
  | finite s a =>
      have ha : a.val = 0 := by simpa [isZero] using h
      simp [numEq, zero, Fin.ext_iff, ha]

theorem text_zero : zero.text = "0" := by
  show (shortest false 0).text = "0"
  rw [shortest_zero]
  rfl

/-- The text of a finite number can be taken apart, and its parts denote the number. -/
theorem denotes_text {x : Binary64} (h : x.isFinite = true) :
    (Positional.ofChars x.text.toList).chars = x.text.toList ∧
      (Positional.ofChars x.text.toList).Denotes x := by
  cases x with
  | nan | infinite => cases h
  | finite negative rank =>
      have hdenotes : (shortest negative rank.val).positional.Denotes (finite negative rank) := by
        rcases Nat.eq_zero_or_pos rank.val with hzero | hpos
        · obtain ⟨rank, hlt⟩ := rank
          cases hzero
          rw [shortest_zero]
          exact denotes_zero negative hlt
        · exact denotes_shortest hpos negative
      rw [text, toList_text, Positional.ofChars_chars hdenotes.canonical]
      exact ⟨rfl, hdenotes⟩

/-- Numbers have the same text if and only if they are equal, as the two zeros are. -/
theorem text_eq_iff_numEq {x y : Binary64} (hx : x.isFinite = true) (hy : y.isFinite = true) :
    x.text = y.text ↔ x.numEq y = true := by
  refine ⟨numEq_of_text_eq hx hy, fun h => ?_⟩
  rw [← text_dropZeroSign, (numEq_iff.mp h).2, text_dropZeroSign]

end Binary64

namespace Expr

theorem compile_number (x : Binary64) (limit : Nat) : (number x).compile (limit + 1) =
    if x.isFinite then .ok x.text else .error (.notFinite x) := by
  have hentries : (Subject.expr (number x)).entries 1 = [⟨1, .expr (number x)⟩] := Subject.entries_eq ..
  have hfault : Entry.fault? (limit + 1) ⟨1, .expr (number x)⟩ = (number x).ownFault? :=
    if_neg (Nat.not_lt.mpr (Nat.le_add_left 1 limit))
  rw [compile_eq, hentries, List.findSome?_singleton, hfault, ownFault?]
  cases x.isFinite <;> rfl

/-- Number literals read back, under every limit that lets an expression in. The text of a finite number has
the parts of a numeral that denotes the number; it is `0` for both zeros, and the text of just the numbers
that are equal to this one. A number that is not finite has no text, and is what the error tells. -/
theorem number_reads_back (x : Binary64) (limit : Nat) :
    (x.isFinite = true → ∃ formula, (number x).compile (limit + 1) = .ok formula ∧
      (Decimal.Positional.ofChars formula.toList).chars = formula.toList ∧
      (Decimal.Positional.ofChars formula.toList).Denotes x ∧
      (x.isZero = true → formula = "0") ∧
      ∀ y : Binary64, y.isFinite = true →
        ((number y).compile (limit + 1) = .ok formula ↔ x.numEq y = true)) ∧
    (x.isFinite = false → (number x).compile (limit + 1) = .error (.notFinite x)) := by
  rw [compile_number]
  refine ⟨fun hx => ?_, fun hx => by rw [hx]; rfl⟩
  obtain ⟨hchars, hdenotes⟩ := Binary64.denotes_text hx
  refine ⟨x.text, if_pos hx, hchars, hdenotes, fun hzero => ?_, fun y hy => ?_⟩
  · rw [← Binary64.text_zero, Binary64.text_eq_iff_numEq hx rfl]
    exact Binary64.numEq_zero_of_isZero hzero
  · rw [compile_number, if_pos hy, Except.ok.injEq, ← Binary64.text_eq_iff_numEq hx hy, eq_comm]

/-- The midpoint between this number and the next greater magnitude is a power of ten, and is rounded to it
because its rank is even. -/
theorem reads_back_midpoint :
    let x : Binary64 := .finite true ⟨0x44B52D02C7E14AF6, by decide⟩
    x.isFinite = true ∧ x.text = "-100000000000000000000000" ∧
      (∃ formula, (number x).compile (0 + 1) = .ok formula ∧
        (Decimal.Positional.ofChars formula.toList).chars = formula.toList ∧
        (Decimal.Positional.ofChars formula.toList).Denotes x ∧
        (x.isZero = true → formula = "0") ∧
        ∀ y : Binary64, y.isFinite = true →
          ((number y).compile (0 + 1) = .ok formula ↔ x.numEq y = true)) ∧
      Binary64.nan.isFinite = false ∧ (number .nan).compile (0 + 1) = .error (.notFinite .nan) :=
  ⟨rfl, by decide +kernel, (number_reads_back _ 0).1 rfl, rfl, (number_reads_back .nan 0).2 rfl⟩

end Expr
end SheetFormula

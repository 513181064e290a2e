import SheetFormula.Binary64

/-! Decimal numerals: a sign, a natural number of digits and a power of ten. The text of a numeral is
always positional, with no exponent, and shows a fraction only where there is one. -/

namespace SheetFormula

/-- The number `± digits · 10 ^ power`. -/
structure Decimal where
  negative : Bool
  digits : Nat
  power : Int
  deriving DecidableEq, Inhabited

namespace Decimal

/-- The digit characters of a natural number, most significant first. -/
def digitChars (n : Nat) : List Char := Nat.toDigits 10 n

/-- The positional form of `digits · 10 ^ -places`, with a point before the last `places` digits and
a zero before the point where no digit is left for it. -/
def withPoint (digits : List Char) (places : Nat) : List Char :=
  if places < digits.length then
    digits.take (digits.length - places) ++ '.' :: digits.drop (digits.length - places)
  else
    '0' :: '.' :: (List.replicate (places - digits.length) '0' ++ digits)

def magnitudeChars (d : Decimal) : List Char :=
  match d.power with
  | .ofNat zeros => digitChars d.digits ++ List.replicate zeros '0'
  | .negSucc n => withPoint (digitChars d.digits) (n + 1)

def text (d : Decimal) : String :=
  String.ofList (if d.negative then '-' :: d.magnitudeChars else d.magnitudeChars)

end Decimal

/-! ### The shortest numeral

Of the numerals that round to a number the shortest is shown. The decimals that round to a rank fill the
interval between the midpoints to its two neighbours, whose ends belong to it exactly when the rank is
even. The multiples of a power of ten form a grid; if any point of a grid lies in the interval, then one of
the two grid points around the number itself does. So grids are tried from coarse to fine, and the first
hit has the fewest digits: of two hits the nearer one is taken, and of two equally near ones the
greater. -/

namespace Binary64

/-- The decimals that round to a rank, in half units. -/
structure Interval where
  low : Nat
  value : Nat
  high : Nat
  closed : Bool

/-- The interval of a rank above zero. -/
def interval (rank : Nat) : Interval where
  low := units (rank - 1) + units rank
  value := 2 * units rank
  high := units rank + units (rank + 1)
  closed := rank % 2 == 0

/-- Whether the point `num / den` lies in the interval. -/
def Interval.contains (i : Interval) (num den : Nat) : Bool :=
  if i.closed then i.low * den ≤ num && num ≤ i.high * den
  else i.low * den < num && num < i.high * den

/-- The multiple of `10 ^ power` that stands for the interval, if one of the two around its value
lies in it. A grid step is `step / den` half units. -/
def Interval.hit? (i : Interval) (power : Int) : Option Nat :=
  let step := 2 * one * Nat.pow 10 power.toNat
  let den := Nat.pow 10 (-power).toNat
  let below := i.value * den / step
  let above := below + 1
  match i.contains (below * step) den, i.contains (above * step) den with
  | true, true =>
    if i.value * den - below * step < above * step - i.value * den then some below else some above
  | true, false => some below
  | false, true => some above
  | false, false => none

/-- The exponent of the finest grid, on which every magnitude lies. -/
def finestPower : Int := -1074

/-- The first hit on the grids from `finestPower + n` down. -/
def Interval.firstHit (i : Interval) : Nat → Nat × Int
  | 0 => (i.value * Nat.pow 10 1074 / (2 * one), finestPower)
  | n + 1 =>
    match i.hit? (finestPower + (n + 1 : Nat)) with
    | some digits => (digits, finestPower + (n + 1 : Nat))
    | none => i.firstHit n

/-- The number of grids above the finest one; the coarsest has the step 10³⁰⁹, past every finite
number. -/
def gridCount : Nat := 1383

/-- The shortest decimal that rounds to the signed rank; a zero has no sign. -/
def shortest (negative : Bool) (rank : Nat) : Decimal :=
  if rank = 0 then ⟨false, 0, 0⟩
  else
    let (digits, power) := (interval rank).firstHit gridCount
    ⟨negative, digits, power⟩

/-- The text of a number: the shortest decimal that reads back, or the name of a value that is not
finite. -/
def text : Binary64 → String
  | nan => "NaN"
  | infinite false => "inf"
  | infinite true => "-inf"
  | finite negative rank => (shortest negative rank.val).text

end Binary64

end SheetFormula

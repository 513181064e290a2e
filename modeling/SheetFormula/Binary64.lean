/-! Binary64 numbers as exact data. A finite number is a sign and a rank, its place in the increasing
sequence of magnitudes that the format can hold, so that consecutive ranks are neighbouring
magnitudes. The magnitude itself is counted in units of 2⁻¹⁰⁷⁴, the smallest positive one, which
makes every magnitude a natural number and keeps all later arithmetic exact. -/

namespace SheetFormula

/-- The number of ranks with one exponent, 2⁵². -/
def blockSize : Nat := 0x10000000000000

/-- The first rank past the finite magnitudes, which fill 2047 blocks. -/
def rankBound : Nat := 0x7FF0000000000000

/-- A binary64 number; all NaNs are one value. -/
inductive Binary64 where
  | nan
  | infinite (negative : Bool)
  | finite (negative : Bool) (rank : Fin rankBound)
  deriving DecidableEq, Inhabited

namespace Binary64

/-- The power of two that scales the significand of a rank, in units. The two lowest blocks, the
subnormal numbers and the first normal ones, share the exponent zero. -/
def exponent (rank : Nat) : Nat := rank / blockSize - 1

/-- The significand of a rank, below 2⁵³. -/
def significand (rank : Nat) : Nat := rank - exponent rank * blockSize

/-- The magnitude of a rank, in units of 2⁻¹⁰⁷⁴. -/
def units (rank : Nat) : Nat := significand rank * Nat.pow 2 (exponent rank)

/-- The number 1 in units of 2⁻¹⁰⁷⁴. -/
def one : Nat := Nat.pow 2 1074

/-- A signed number of the given rank; a rank past the finite ones is an infinity. -/
def ofRank (negative : Bool) (rank : Nat) : Binary64 :=
  if h : rank < rankBound then finite negative ⟨rank, h⟩ else infinite negative

def zero : Binary64 := finite false ⟨0, by decide⟩

def isFinite : Binary64 → Bool
  | finite _ _ => true
  | _ => false

def isZero : Binary64 → Bool
  | finite _ rank => rank.val == 0
  | _ => false

def neg : Binary64 → Binary64
  | nan => nan
  | infinite negative => infinite (!negative)
  | finite negative rank => finite (!negative) rank

/-- Numeric equality: NaN differs from every number, itself included, and the zeros are equal. -/
def numEq : Binary64 → Binary64 → Bool
  | infinite s, infinite t => s == t
  | finite s a, finite t b => a == b && (s == t || a.val == 0)
  | _, _ => false

/-- The place of the sign among the interchange bits, 2⁶³. -/
def signPlace : Nat := 0x8000000000000000

/-- The number with the given interchange bits: sign, then magnitude. -/
def ofBits (bits : UInt64) : Binary64 :=
  let negative := signPlace ≤ bits.toNat
  let rank := bits.toNat % signPlace
  if rank ≤ rankBound then ofRank negative rank else nan

/-- The interchange bits of a number; NaN has no bits of its own. -/
def toBits? : Binary64 → Option UInt64
  | nan => none
  | infinite negative => some (signed negative rankBound)
  | finite negative rank => some (signed negative rank.val)
where
  /-- A magnitude field with its sign bit. -/
  signed (negative : Bool) (magnitude : Nat) : UInt64 :=
    UInt64.ofNat (if negative then signPlace + magnitude else magnitude)

end Binary64

/-! ### Rounding

A quotient is rounded to the nearest number, ties to the even significand, and products and quotients
of numbers follow from it: every operation is exact first and rounded once. -/

/-- The quotient rounded to the nearest integer, a half going to the even neighbour. -/
def roundHalfEven (num den : Nat) : Nat :=
  let quotient := num / den
  let twice := 2 * (num % den)
  if twice < den then quotient
  else if den < twice then quotient + 1
  else quotient + quotient % 2

namespace Binary64

/-- The rank nearest to `num / den`, with the exponent unbounded above. The exponent is the one that
leaves 53 bits of the quotient; a significand rounded up to 2⁵³ moves to the next block by itself,
because ranks count on across blocks. -/
def nearestRank (num den : Nat) : Nat :=
  let shift := (num * one / den).log2 - 52
  shift * blockSize + roundHalfEven (num * one) (den * Nat.pow 2 shift)

/-- The number nearest to the signed quotient; past the largest finite number, an infinity. -/
def ofRatio (negative : Bool) (num den : Nat) : Binary64 :=
  ofRank negative (nearestRank num den)

def ofNat (n : Nat) : Binary64 := ofRatio false n 1

/-- The number nearest to an integer; zero is the positive zero. -/
def ofInt (n : Int) : Binary64 := ofRatio (decide (n < 0)) n.natAbs 1

def mul : Binary64 → Binary64 → Binary64
  | nan, _ | _, nan => nan
  | infinite s, infinite t => infinite (s ^^ t)
  | infinite s, finite t b => if b.val = 0 then nan else infinite (s ^^ t)
  | finite s a, infinite t => if a.val = 0 then nan else infinite (s ^^ t)
  | finite s a, finite t b => ofRatio (s ^^ t) (units a * units b) (one * one)

def div : Binary64 → Binary64 → Binary64
  | nan, _ | _, nan => nan
  | infinite _, infinite _ => nan
  | infinite s, finite t _ => infinite (s ^^ t)
  | finite s _, infinite t => ofRank (s ^^ t) 0
  | finite s a, finite t b =>
    if b.val = 0 then if a.val = 0 then nan else infinite (s ^^ t)
    else ofRatio (s ^^ t) (units a) (units b)

end Binary64

end SheetFormula

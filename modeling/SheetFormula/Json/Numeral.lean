import SheetFormula.Binary64
import SheetFormula.Json

/-! Number literals of JSON. The digits are read into a significand of at most 64 bits and a power of
ten, and the number is their product, each step rounded on its own; so a literal of many digits or
of a large exponent can be off the nearest number by its last bit. -/

namespace SheetFormula
namespace Json

/-- What is written before the digits of an exponent. -/
inductive ExponentSign where
  | absent | plus | minus
  deriving DecidableEq, Inhabited

/-- The digits of a literal: before the point, after it, and of the exponent with its sign. -/
structure Numeral where
  negative : Bool
  integer : List Nat
  fraction : List Nat
  exponent : Option (ExponentSign × List Nat)

namespace Numeral

/-- The number of characters of a literal. A point and an `e` are written where digits follow. -/
def width (n : Numeral) : Nat :=
  (if n.negative then 1 else 0) + n.integer.length
    + (if n.fraction.isEmpty then 0 else n.fraction.length + 1)
    + match n.exponent with
      | none => 0
      | some (.absent, ds) => ds.length + 1
      | some (_, ds) => ds.length + 2

/-- The digits that a text begins with, and what follows them. -/
def digits (s : List Char) : List Nat × List Char :=
  ((s.takeWhile Char.isDigit).map fun c => c.toNat - '0'.toNat, s.dropWhile Char.isDigit)

/-- Reads the integer part; a zero stands alone. -/
def readInteger (s : List Char) : Except Failure (List Nat × List Char) :=
  match s with
  | [] => .error (.atEnd .endInValue)
  | c :: rest =>
    if c = '0' then
      match rest with
      | d :: _ => if d.isDigit then .error (.onByte .invalidNumber rest) else .ok ([0], rest)
      | [] => .ok ([0], rest)
    else if c.isDigit then .ok (digits s)
    else .error (.onByte .invalidNumber s)

/-- Reads the fraction, if there is a point. -/
def readFraction (s : List Char) : Except Failure (List Nat × List Char) :=
  match s with
  | '.' :: rest =>
    match digits rest with
    | ([], []) => .error (.atEnd .endInValue)
    | ([], _) => .error (.onByte .invalidNumber rest)
    | read => .ok read
  | _ => .ok ([], s)

def readSign (s : List Char) : ExponentSign × List Char :=
  match s with
  | '-' :: rest => (.minus, rest)
  | '+' :: rest => (.plus, rest)
  | _ => (.absent, s)

def readExponent (s : List Char) :
    Except Failure (Option (ExponentSign × List Nat) × List Char) :=
  match s with
  | c :: rest =>
    if c = 'e' ∨ c = 'E' then
      let (sign, rest) := readSign rest
      match digits rest with
      | ([], []) => .error (.atEnd .endInValue)
      | ([], _) => .error (.onByte .invalidNumber rest)
      | (ds, rest) => .ok (some (sign, ds), rest)
    else .ok (none, s)
  | [] => .ok (none, s)

/-- Reads a literal, and returns what follows it. -/
def read (s : List Char) : Except Failure (Numeral × List Char) := do
  let (negative, rest) := match s with
    | '-' :: rest => (true, rest)
    | _ => (false, s)
  let (integer, rest) ← readInteger rest
  let (fraction, rest) ← readFraction rest
  let (exponent, rest) ← readExponent rest
  return (⟨negative, integer, fraction, exponent⟩, rest)

/-- Appends digits to a number as long as it stays below the bound, and returns the digits that are
left. -/
def absorb (bound : Nat) : Nat → List Nat → Nat × List Nat
  | n, [] => (n, [])
  | n, d :: ds => if n * 10 + d < bound then absorb bound (n * 10 + d) ds else (n, d :: ds)

/-- The number nearest to a power of ten. -/
def powerOfTen (n : Nat) : Binary64 := .ofNat (Nat.pow 10 n)

def greatestPower : Nat := 308

/-- Divides by the greatest power of ten `steps` times, as long as anything is left, and then by the
power `last`. -/
def scaleDown (last : Nat) : (steps : Nat) → Binary64 → Binary64
  | 0, x => x.div (powerOfTen last)
  | n + 1, x => if x.isZero then x else scaleDown last n (x.div (powerOfTen greatestPower))

/-- The product of a significand and a power of ten, if it is finite. -/
def scale (significand : Nat) (power : Int) : Option Binary64 :=
  let x := Binary64.ofNat significand
  match power with
  | .ofNat n =>
    if greatestPower < n then if x.isZero then some x else none
    else
      let y := x.mul (powerOfTen n)
      if y.isFinite then some y else none
  | .negSucc n =>
    let steps := n / greatestPower
    some (scaleDown (n + 1 - greatestPower * steps) steps x)

/-- The least and the greatest power of ten that are counted; powers past them are taken as them. -/
def clampPower (power : Int) : Int := max (-0x80000000) (min power 0x7FFFFFFF)

/-- The first significand that is not held, 2⁶⁴. -/
def significandBound : Nat := 0x10000000000000000

/-- The first written exponent that is not held, 2³¹. -/
def exponentBound : Nat := 0x80000000

/-- The value of a literal. It is none if the number is out of range, with the number of exponent
digits that were not needed to see this. Digits of the integer past 64 bits count as zeros, and
those of the fraction do not count; a written exponent past 31 bits stands for zero or for a number
out of range. -/
def value (n : Numeral) : Except Nat Binary64 :=
  let (significand, dropped) := absorb significandBound 0 n.integer
  let (significand, ignored) := absorb significandBound significand n.fraction
  let power : Int := dropped.length - (n.fraction.length - ignored.length : Nat)
  let signed (x : Binary64) := if n.negative then x.neg else x
  let scaled (power : Int) : Except Nat Binary64 :=
    match scale significand power with
    | some x => .ok (signed x)
    | none => .error 0
  match n.exponent with
  | none =>
    if n.fraction.isEmpty && dropped.isEmpty then .ok (signed (.ofNat significand))
    else scaled power
  | some (sign, ds) =>
    match absorb exponentBound 0 ds with
    | (written, []) =>
      scaled (clampPower (if sign = .minus then power - written else power + written))
    | (_, _ :: unread) =>
      if significand = 0 ∨ sign = .minus then .ok (signed .zero) else .error unread.length

end Numeral

/-- Reads a literal as a number, and returns how many characters it has. -/
def readNumber (s : List Char) : Except Failure (Binary64 × Nat) := do
  let (n, rest) ← Numeral.read s
  match n.value with
  | .ok x => return (x, n.width)
  | .error unread => throw ⟨.numberOutOfRange, byteCount rest + unread⟩

end Json
end SheetFormula

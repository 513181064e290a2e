import SheetFormula.Json

/-! Quoted texts in JSON, written and read. -/

namespace SheetFormula
namespace Json

/-! ### Writing

The quoted form of a text in JSON, in its shortest spelling: only the quote, the backslash and the
control characters below the space are escaped, with the short escape where there is one. -/

/-- The lower-case hexadecimal digit of a number below sixteen. -/
def hexDigit (n : Nat) : Char :=
  if n < 10 then Char.ofNat ('0'.toNat + n) else Char.ofNat ('a'.toNat + (n - 10))

/-- How a character is written between quotes. -/
def escapeChar (c : Char) : List Char :=
  if c = '"' then ['\\', '"']
  else if c = '\\' then ['\\', '\\']
  else if c = '\x08' then ['\\', 'b']
  else if c = '\x0c' then ['\\', 'f']
  else if c = '\n' then ['\\', 'n']
  else if c = '\r' then ['\\', 'r']
  else if c = '\t' then ['\\', 't']
  else if c < ' ' then ['\\', 'u', '0', '0', hexDigit (c.toNat / 16), hexDigit (c.toNat % 16)]
  else [c]

def quotedChars (s : List Char) : List Char :=
  '"' :: (s.flatMap escapeChar ++ ['"'])

def quote (s : String) : String := String.ofList (quotedChars s.toList)

def quoteAll (parts : List String) : String :=
  "[" ++ ",".intercalate (parts.map quote) ++ "]"

/-! ### Reading

The content of a quoted text in JSON: what stands between the quotes, with the escapes resolved. A
character past the first 65536 may be escaped as two surrogates, and a surrogate stands for nothing
by itself. -/

/-- The value of a hexadecimal digit of either case. -/
def hexValue? (c : Char) : Option Nat :=
  if '0' ≤ c ∧ c ≤ '9' then some (c.toNat - '0'.toNat)
  else if 'a' ≤ c ∧ c ≤ 'f' then some (c.toNat - 'a'.toNat + 10)
  else if 'A' ≤ c ∧ c ≤ 'F' then some (c.toNat - 'A'.toNat + 10)
  else none

/-- The number written in four hexadecimal digits. -/
def hexNumber? (a b c d : Char) : Option Nat := do
  return ((← hexValue? a) * 4096 + (← hexValue? b) * 256 + (← hexValue? c) * 16 + (← hexValue? d))

def readHex (s : List Char) : Except Failure (Nat × List Char) :=
  let number? := match s with
    | a :: b :: c :: d :: rest => (hexNumber? a b c d).map (·, rest)
    | _ => none
  match number? with
  | some read => .ok read
  | none => .error (if byteCount s < 4 then .atEnd .endInString else .after .invalidEscape 4 s)

def isLowSurrogate (n : Nat) : Bool := 0xDC00 ≤ n && n ≤ 0xDFFF

def isHighSurrogate (n : Nat) : Bool := 0xD800 ≤ n && n ≤ 0xDBFF

/-- The character that two surrogates stand for. -/
def surrogatePair (high low : Nat) : Char :=
  Char.ofNat (0x10000 + (high - 0xD800) * 0x400 + (low - 0xDC00))

/-- Takes the given character, between the two surrogates of a character. -/
def expectInPair (c : Char) (s : List Char) : Except Failure (List Char) :=
  match s with
  | [] => .error (.atEnd .endInString)
  | d :: rest => if d = c then .ok rest else .error (.onByte .unpairedSurrogate s)

/-- Reads a numeric escape after its `u`, and returns how many characters of it there are. -/
def readUnicode (s : List Char) : Except Failure (Char × Nat) := do
  let (n, rest) ← readHex s
  if isLowSurrogate n then throw (.before .loneSurrogate rest)
  else if isHighSurrogate n then
    let rest ← expectInPair '\\' rest
    let rest ← expectInPair 'u' rest
    let (m, rest) ← readHex rest
    if isLowSurrogate m then return (surrogatePair n m, 10)
    else throw (.before .loneSurrogate rest)
  else return (Char.ofNat n, 4)

/-- The character that an escape letter stands for. -/
def shortEscape? : Char → Option Char
  | '"' => some '"'
  | '\\' => some '\\'
  | '/' => some '/'
  | 'b' => some '\x08'
  | 'f' => some '\x0c'
  | 'n' => some '\n'
  | 'r' => some '\r'
  | 't' => some '\t'
  | _ => none

/-- Reads an escape after its backslash, and returns how many characters of it there are. -/
def readEscape (s : List Char) : Except Failure (Char × Nat) :=
  match s with
  | [] => .error (.atEnd .endInString)
  | c :: rest =>
    if c = 'u' then do
      let (e, width) ← readUnicode rest
      return (e, width + 1)
    else match shortEscape? c with
      | some e => .ok (e, 1)
      | none => .error (.onByte .invalidEscape s)

/-- The characters up to the closing quote after skipping `skip` characters, and how many there are
in the written form, the skipped ones and the quote included. -/
def unquoted : (skip : Nat) → List Char → Except Failure (List Char × Nat)
  | _, [] => .error (.atEnd .endInString)
  | n + 1, _ :: rest => do
    let (content, width) ← unquoted n rest
    return (content, width + 1)
  | 0, c :: rest =>
    if c = '"' then .ok ([], 1)
    else if c = '\\' then do
      let (e, escaped) ← readEscape rest
      let (content, width) ← unquoted escaped rest
      return (e :: content, width + 1)
    else if c < ' ' then .error (.before .controlCharacter rest)
    else do
      let (content, width) ← unquoted 0 rest
      return (c :: content, width + 1)

end Json
end SheetFormula

import SheetFormula.Binary64

/-! JSON values, and the failures of reading them. -/

namespace SheetFormula

/-- A value as it is read: members keep their order, and a repeated key is kept. -/
inductive Json where
  | null
  | bool (b : Bool)
  | number (value : Binary64)
  | string (value : String)
  | array (items : List Json)
  | object (members : List (String × Json))
  deriving Inhabited

/-! ### Where and why a text is not JSON

A failure is placed by the bytes that were left after it, which a
reader knows without counting from the start; the line and the column come from the whole text. -/

namespace Json

/-- Why a text is not JSON. -/
inductive Cause where
  | endInValue | endInArray | endInObject | endInString
  | expectedValue | expectedIdent | expectedColon | expectedArrayEnd | expectedObjectEnd
  | trailingComma | trailingCharacters | keyNotString
  | invalidNumber | numberOutOfRange
  | invalidEscape | controlCharacter | loneSurrogate | unpairedSurrogate
  | tooDeep
  deriving DecidableEq, Inhabited

def Cause.message : Cause → String
  | endInValue => "EOF while parsing a value"
  | endInArray => "EOF while parsing a list"
  | endInObject => "EOF while parsing an object"
  | endInString => "EOF while parsing a string"
  | expectedValue => "expected value"
  | expectedIdent => "expected ident"
  | expectedColon => "expected `:`"
  | expectedArrayEnd => "expected `,` or `]`"
  | expectedObjectEnd => "expected `,` or `\x7d`"
  | trailingComma => "trailing comma"
  | trailingCharacters => "trailing characters"
  | keyNotString => "key must be a string"
  | invalidNumber => "invalid number"
  | numberOutOfRange => "number out of range"
  | invalidEscape => "invalid escape"
  | controlCharacter => "control character (\\u0000-\\u001F) found while parsing a string"
  | loneSurrogate => "lone leading surrogate in hex escape"
  | unpairedSurrogate => "unexpected end of hex escape"
  | tooDeep => "recursion limit exceeded"

/-- A cause, and the number of bytes between its place and the end of the text. -/
structure Failure where
  cause : Cause
  remaining : Nat
  deriving DecidableEq, Inhabited

/-- The number of UTF-8 bytes of a text. -/
def byteCount (cs : List Char) : Nat := cs.foldl (fun n c => n + c.utf8Size) 0

namespace Failure

def atEnd (cause : Cause) : Failure := ⟨cause, 0⟩

/-- A failure after the first `bytes` bytes of `rest`. -/
def after (cause : Cause) (bytes : Nat) (rest : List Char) : Failure :=
  ⟨cause, byteCount rest - bytes⟩

def before (cause : Cause) (rest : List Char) : Failure := after cause 0 rest

/-- A failure at the first byte of `rest`, which counts as read. -/
def onByte (cause : Cause) (rest : List Char) : Failure := after cause 1 rest

end Failure

/-- A line, counted from one, and the number of bytes of it. -/
structure Position where
  line : Nat
  column : Nat
  deriving DecidableEq, Inhabited

namespace Position

def start : Position := ⟨1, 0⟩

/-- The position after the first `bytes` bytes of a text. -/
def advance (p : Position) : (bytes : Nat) → List Char → Position
  | 0, _ => p
  | _, [] => p
  | n + 1, c :: cs =>
    if c = '\n' then advance ⟨p.line + 1, 0⟩ n cs
    else advance ⟨p.line, p.column + min c.utf8Size (n + 1)⟩ (n + 1 - c.utf8Size) cs

def text (p : Position) : String :=
  "line " ++ toString p.line ++ " column " ++ toString p.column

end Position

/-- The position of a failure in the whole text. -/
def Failure.position (f : Failure) (source : List Char) : Position :=
  Position.start.advance (byteCount source - f.remaining) source

end Json

end SheetFormula

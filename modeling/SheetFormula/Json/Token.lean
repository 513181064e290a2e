import SheetFormula.Json
import SheetFormula.Json.Numeral
import SheetFormula.Json.Quoted

/-! The tokens of JSON. Scanning cannot fail: a token that is broken carries its failure, which counts
only where a value or a key may begin, and ends the scan. -/

namespace SheetFormula
namespace Json

/-- A token, or a character that begins none. -/
inductive Token where
  | openArray | closeArray | openObject | closeObject | comma | colon
  | text (content : Except Failure String)
  /-- A number, or one of the three words. -/
  | scalar (value : Except Failure Json)
  | stray

def Token.isBroken : Token → Bool
  | text (.error _) | scalar (.error _) => true
  | _ => false

/-- A token and the text from its first character on. -/
structure Lexeme where
  token : Token
  source : List Char

/-- The characters that may stand between tokens. -/
def isBlank (c : Char) : Bool := c = ' ' || c = '\t' || c = '\n' || c = '\r'

/-- Reads the rest of a word, given as it should be. -/
def readWord : (word : List Char) → List Char → Except Failure Unit
  | [], _ => .ok ()
  | _ :: _, [] => .error (.atEnd .endInValue)
  | e :: es, c :: cs => if c = e then readWord es cs else .error (.onByte .expectedIdent (c :: cs))

/-- A word with its value, and how many characters follow the first one. -/
def wordToken (word : List Char) (value : Json) (rest : List Char) : Token × Nat :=
  (.scalar ((readWord word rest).map fun _ => value), word.length)

/-- The token that begins with `c`, and how many characters of the rest belong to it. -/
def lex (c : Char) (rest : List Char) : Token × Nat :=
  match c with
  | '[' => (.openArray, 0)
  | ']' => (.closeArray, 0)
  | '\x7b' => (.openObject, 0)
  | '\x7d' => (.closeObject, 0)
  | ',' => (.comma, 0)
  | ':' => (.colon, 0)
  | '"' =>
    match unquoted 0 rest with
    | .ok (content, width) => (.text (.ok (String.ofList content)), width)
    | .error f => (.text (.error f), 0)
  | 'n' => wordToken ['u', 'l', 'l'] .null rest
  | 't' => wordToken ['r', 'u', 'e'] (.bool true) rest
  | 'f' => wordToken ['a', 'l', 's', 'e'] (.bool false) rest
  | c =>
    if c = '-' || c.isDigit then
      match readNumber (c :: rest) with
      | .ok (x, width) => (.scalar (.ok (.number x)), width - 1)
      | .error f => (.scalar (.error f), 0)
    else (.stray, 0)

/-- The tokens of a text after skipping `skip` characters. -/
def scan : (skip : Nat) → List Char → List Lexeme
  | _, [] => []
  | n + 1, _ :: rest => scan n rest
  | 0, c :: rest =>
    if isBlank c then scan 0 rest
    else
      let (token, width) := lex c rest
      ⟨token, c :: rest⟩ :: if token.isBroken then [] else scan width rest

end Json
end SheetFormula

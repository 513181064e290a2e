import SheetFormula.Json.Token

/-! The grammar of JSON, as states between tokens. A state says what may come next, and holds the
arrays and objects that are open; every token takes one state to the next, or completes the value. -/

namespace SheetFormula
namespace Json

/-- An open array, or an open object whose last key waits for its value. What is already read is in
reverse order. -/
inductive Frame where
  | array (items : List Json)
  | object (members : List (String × Json)) (key : String)

/-- What may come next, inside of the open frames. -/
inductive State where
  | value (frames : List Frame)
  | firstItem (frames : List Frame)
  | item (items : List Json) (frames : List Frame)
  | afterItem (items : List Json) (frames : List Frame)
  | firstKey (frames : List Frame)
  | key (members : List (String × Json)) (frames : List Frame)
  | colon (members : List (String × Json)) (key : String) (frames : List Frame)
  | afterMember (members : List (String × Json)) (frames : List Frame)

/-- How many arrays and objects may be open at once. -/
def nestingLimit : Nat := 127

/-- What a text that ends in a state is missing. -/
def State.endCause : State → Cause
  | value _ | item _ _ | key _ _ => .endInValue
  | firstItem _ | afterItem _ _ => .endInArray
  | firstKey _ | colon _ _ _ | afterMember _ _ => .endInObject

/-- The next state, or the whole value. -/
abbrev Outcome := State ⊕ Json

/-- Puts a complete value into the innermost open frame. -/
def complete (v : Json) : List Frame → Outcome
  | [] => .inr v
  | .array items :: frames => .inl (.afterItem (v :: items) frames)
  | .object members key :: frames => .inl (.afterMember ((key, v) :: members) frames)

/-- Opens an array or object, unless too many are open. -/
def openFrame (l : Lexeme) (frames : List Frame) (next : State) : Except Failure Outcome :=
  if frames.length < nestingLimit then .ok (.inl next) else .error (.onByte .tooDeep l.source)

def beginValue (l : Lexeme) (frames : List Frame) : Except Failure Outcome :=
  match l.token with
  | .openArray => openFrame l frames (.firstItem frames)
  | .openObject => openFrame l frames (.firstKey frames)
  | .text content => content.map fun s => complete (.string s) frames
  | .scalar value => value.map fun v => complete v frames
  | _ => .error (.onByte .expectedValue l.source)

def beginMember (l : Lexeme) (members : List (String × Json)) (frames : List Frame) :
    Except Failure Outcome :=
  match l.token with
  | .text content => content.map fun s => .inl (.colon members s frames)
  | _ => .error (.onByte .keyNotString l.source)

def State.step (s : State) (l : Lexeme) : Except Failure Outcome :=
  match s, l.token with
  | value frames, _ => beginValue l frames
  | firstItem frames, .closeArray => .ok (complete (.array []) frames)
  | firstItem frames, _ => beginValue l (.array [] :: frames)
  | item _ _, .closeArray => .error (.onByte .trailingComma l.source)
  | item items frames, _ => beginValue l (.array items :: frames)
  | afterItem items frames, .comma => .ok (.inl (.item items frames))
  | afterItem items frames, .closeArray => .ok (complete (.array items.reverse) frames)
  | afterItem _ _, _ => .error (.onByte .expectedArrayEnd l.source)
  | firstKey frames, .closeObject => .ok (complete (.object []) frames)
  | firstKey frames, _ => beginMember l [] frames
  | key _ _, .closeObject => .error (.onByte .trailingComma l.source)
  | key members frames, _ => beginMember l members frames
  | colon members name frames, .colon => .ok (.inl (.value (.object members name :: frames)))
  | colon _ _ _, _ => .error (.onByte .expectedColon l.source)
  | afterMember members frames, .comma => .ok (.inl (.key members frames))
  | afterMember members frames, .closeObject => .ok (complete (.object members.reverse) frames)
  | afterMember _ _, _ => .error (.onByte .expectedObjectEnd l.source)

/-- Reads tokens from a state on until the value is complete, and returns the tokens after it. -/
def State.run (s : State) : List Lexeme → Except Failure (Json × List Lexeme)
  | [] => .error (.atEnd s.endCause)
  | l :: ls =>
    match s.step l with
    | .ok (.inl next) => next.run ls
    | .ok (.inr v) => .ok (v, ls)
    | .error f => .error f

/-- Reads the value that a text begins with, and returns the tokens after it. -/
def read (s : List Char) : Except Failure (Json × List Lexeme) :=
  (State.value []).run (scan 0 s)

/-- Checks that nothing follows a value. -/
def expectEnd : List Lexeme → Except Failure Unit
  | [] => .ok ()
  | l :: _ => .error (.onByte .trailingCharacters l.source)

end Json
end SheetFormula

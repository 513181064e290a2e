import SheetFormula.Json.Reader
import SheetFormula.Registry.Build

/-! Descriptions of expressions, as they are written in JSON: a literal is an object with a `text`, a
`number` or a `field`, and everything else an object with the name of a function, `op`, and its
arguments, `args`. Other members are ignored; an object that could be more than one description is
the first of them in this order. -/

namespace SheetFormula

inductive Description where
  | text (value : String)
  | number (value : Binary64)
  | field (name : String)
  | call (op : String) (arguments : List Description)
  deriving Inhabited

/-- What the members of an object say about one key. -/
inductive Slot (α : Type) where
  | absent
  | filled (value : α)
  /-- The key is repeated, or its value is of the wrong kind. -/
  | unfit

/-- A slot after one more member with its key; the member has the value `value?` if that is of the
right kind. -/
def Slot.put {α : Type} (s : Slot α) (value? : Option α) : Slot α :=
  match s, value? with
  | absent, some a => filled a
  | _, _ => unfit

/-- What the members of an object say about the keys of descriptions. -/
structure Slots where
  text : Slot String
  number : Slot Binary64
  field : Slot String
  op : Slot String
  args : Slot (List Description)

namespace Slots

def empty : Slots := ⟨.absent, .absent, .absent, .absent, .absent⟩

/-- The first description that fits: the slots that it needs are filled, except that the arguments
may be absent. -/
def describe? (s : Slots) : Option Description :=
  match s.text, s.number, s.field, s.op, s.args with
  | .filled value, _, _, _, _ => some (.text value)
  | _, .filled value, _, _, _ => some (.number value)
  | _, _, .filled name, _, _ => some (.field name)
  | _, _, _, .filled op, .filled arguments => some (.call op arguments)
  | _, _, _, .filled op, .absent => some (.call op [])
  | _, _, _, _, _ => none

end Slots

namespace Json

def string? : Json → Option String
  | string value => some value
  | _ => none

def number? : Json → Option Binary64
  | number value => some value
  | _ => none

mutual

def describe? : Json → Option Description
  | object members => (slots members).describe?
  | _ => none

/-- What members say about the keys of descriptions. -/
def slots : List (String × Json) → Slots
  | [] => .empty
  | (key, value) :: rest =>
    let s := slots rest
    match key with
    | "text" => { s with text := s.text.put value.string? }
    | "number" => { s with number := s.number.put value.number? }
    | "field" => { s with field := s.field.put value.string? }
    | "op" => { s with op := s.op.put value.string? }
    | "args" => { s with args := s.args.put value.describeItems? }
    | _ => s

def describeItems? : Json → Option (List Description)
  | array items => describeAll? items
  | _ => none

def describeAll? : List Json → Option (List Description)
  | [] => some []
  | item :: rest => do
    let d ← item.describe?
    let ds ← describeAll? rest
    return d :: ds

end

end Json

inductive ParseError where
  | malformed (cause : Json.Cause) (position : Json.Position)
  /-- The text begins with a JSON value that is not a description. -/
  | mismatch
  deriving DecidableEq, Inhabited

def ParseError.message : ParseError → String
  | malformed cause position => cause.message ++ " at " ++ position.text
  | mismatch => "data did not match any variant of untagged enum Description"

namespace Description

/-- Reads a description. What follows the value is looked at last. -/
def parse (source : String) : Except ParseError Description :=
  let malformed (f : Json.Failure) : ParseError := .malformed f.cause (f.position source.toList)
  match Json.read source.toList with
  | .error f => .error (malformed f)
  | .ok (value, rest) =>
    match value.describe? with
    | none => .error .mismatch
    | some d =>
      match Json.expectEnd rest with
      | .error f => .error (malformed f)
      | .ok () => .ok d

mutual

/-- Builds the described expression; the arguments of a call are built before the call itself, from
left to right. -/
def build (r : Registry) : Description → Except BuildError Expr
  | text value => .ok (.text value)
  | number value => .ok (.number value)
  | field name => .ok (.field name)
  | call op arguments => do
    let arguments ← buildAll r arguments
    r.build op arguments

def buildAll (r : Registry) : List Description → Except BuildError (List Expr)
  | [] => .ok []
  | d :: ds => do
    let e ← d.build r
    let es ← buildAll r ds
    return e :: es

end

end Description

inductive LoadError where
  | parse (e : ParseError)
  | build (e : BuildError)
  deriving DecidableEq, Inhabited

def LoadError.message : LoadError → String
  | parse e => "JSON error: " ++ e.message
  | build e => e.message

def Registry.load (r : Registry) (source : String) : Except LoadError Expr :=
  match Description.parse source with
  | .error e => .error (.parse e)
  | .ok d => (d.build r).mapError .build

end SheetFormula

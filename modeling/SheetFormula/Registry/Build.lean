import SheetFormula.Expr
import SheetFormula.Registry

/-! Building expressions from a function name and a list of arguments. The arguments come in the order
in which a formula shows them; the definition under the name says how many there may be, and its
operation what is made of them. -/

namespace SheetFormula

inductive BuildError where
  | unknownFunction (name : String)
  /-- The definition with this name and arity does not admit so many arguments. -/
  | argumentCount (name : String) (arity : Arity) (actual : Nat)
  | misuse (m : Misuse)
  deriving DecidableEq, Inhabited

def BuildError.message : BuildError → String
  | unknownFunction name => "Unknown function: " ++ name
  | argumentCount name arity actual =>
    "Wrong number of arguments for " ++ name ++ ": expected " ++ arity.text ++ ", got "
      ++ toString actual
  | misuse m => m.message

/-- The branch that an expression is, as an argument of a `switch`. -/
def Expr.asBranch : Expr → Except Misuse Branch
  | .branch b => .ok b
  | e => .error (.notBranch e.operation)

/-- An array join of the arguments before the last one, which must be a text literal and is the
separator. -/
def Expr.arrayJoinOfArguments (arguments : List Expr) : Except Misuse Expr :=
  match arguments.getLast? with
  | none => .error .missingSeparator
  | some (.text separator) => .ok (.arrayJoin arguments.dropLast separator)
  | some e => .error (.separator e.operation)

/-- The expression that an operation makes of arguments. An operation of a fixed number of arguments
takes that many and its optional one, and leaves the rest. -/
def Operation.build : Operation → List Expr → Except Misuse Expr
  | .text, _ => .error (.literal .text)
  | .number, _ => .error (.literal .number)
  | .field, _ => .error (.literal .field)
  | .constant c, _ => .ok (.constant c)
  | .join, parts => .ok (.join parts)
  | .concatenate, parts => .ok (.concatenate parts)
  | .arrayJoin, arguments => Expr.arrayJoinOfArguments arguments
  | .unary f, a :: _ => .ok (.unary f a)
  | .count f, string :: amount :: _ => .ok (.count f string amount)
  | .locate f, needle :: haystack :: rest => .ok (.locate f needle haystack rest.head?)
  | .mid, string :: start :: length :: _ => .ok (.mid string start length)
  | .replace, string :: start :: length :: replacement :: _ =>
    .ok (.replace string start length replacement)
  | .substitute, string :: old :: new :: rest => .ok (.substitute string old new rest.head?)
  | .logical f, arguments => .ok (.logical f arguments)
  | .conditional, condition :: whenTrue :: whenFalse :: _ =>
    .ok (.conditional condition whenTrue whenFalse)
  | .branch, [value] => .ok (.branch (.otherwise value))
  | .branch, condition :: value :: _ => .ok (.branch (.when condition value))
  | .switch, pattern :: rest => (rest.mapM Expr.asBranch).map (.switch pattern)
  | .operator o, left :: right :: _ => .ok (.operator o left right)
  | op, _ => .error (.missingArgument op)

/-- The expression that the function with the given name makes of arguments. Their number is checked
before their shapes. -/
def Registry.build (r : Registry) (name : String) (arguments : List Expr) :
    Except BuildError Expr :=
  match r.get? name with
  | none => .error (.unknownFunction name)
  | some d =>
    if d.arity.admits arguments.length then (d.operation.build arguments).mapError .misuse
    else .error (.argumentCount d.name d.arity arguments.length)

end SheetFormula

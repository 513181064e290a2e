import SheetFormula.Compile

/-! What the arguments of the command line ask for. Arguments are taken one after another: an option that
needs a value waits for the next argument, and after `--` everything is an operand. The option
`verbose` may stand once before the command and once after it. -/

namespace SheetFormula
namespace CommandLine

structure CompileRequest where
  /-- The file to read, or none for the standard input. -/
  input : Option String
  /-- The file to write, or none for the standard output. -/
  output : Option String
  limit : Nat
  /-- Whether to show more of the log. -/
  verbose : Bool
  deriving DecidableEq, Inhabited

inductive Request where
  | version
  | functions
  | compile (request : CompileRequest)
  deriving DecidableEq, Inhabited

/-- Why the arguments are not read to their end. -/
inductive Stop where
  | version
  | usage
  deriving DecidableEq, Inhabited

inductive Command where
  | compile | functions
  deriving DecidableEq, Inhabited

/-- The options of `compile` that have a value. -/
inductive Setting where
  | output | limit
  deriving DecidableEq, Inhabited

/-- What the arguments so far have said. -/
structure Reading where
  command : Option Command
  /-- Whether `verbose` was given, since the command if there is one. -/
  verbose : Bool
  /-- Whether `verbose` was given before the command. -/
  verboseBefore : Bool
  /-- Whether everything from here on is an operand. -/
  escaped : Bool
  /-- The option that waits for its value. -/
  pending : Option Setting
  input : Option String
  output : Option String
  limit : Option Nat

namespace Reading

def start : Reading := ⟨none, false, false, false, none, none, none, none⟩

/-- The first limit that cannot be given, 2⁶⁴. -/
def limitBound : Nat := 0x10000000000000000

/-- A natural number below the bound in decimal digits, with an optional plus before them. -/
def limitValue? (s : List Char) : Option Nat :=
  let ds := match s with
    | '+' :: ds => ds
    | _ => s
  if ds.isEmpty || !ds.all Char.isDigit then none
  else
    let n := ds.foldl (fun n c => n * 10 + (c.toNat - '0'.toNat)) 0
    if n < limitBound then some n else none

/-- Gives an option its value, which it may have only once. -/
def set (r : Reading) (s : Setting) (value : List Char) : Except Stop Reading :=
  match s with
  | .output =>
    if r.output.isSome || value.isEmpty then .error .usage
    else .ok { r with pending := none, output := some (String.ofList value) }
  | .limit =>
    match r.limit, limitValue? value with
    | none, some n => .ok { r with pending := none, limit := some n }
    | _, _ => .error .usage

/-- Gives an option its value, or lets it wait for one. -/
def setOrWait (r : Reading) (s : Setting) (value? : Option (List Char)) : Except Stop Reading :=
  match value? with
  | some value => r.set s value
  | none => .ok { r with pending := some s }

def setVerbose (r : Reading) : Except Stop Reading :=
  if r.verbose then .error .usage else .ok { r with verbose := true }

/-- Takes the command. -/
def setCommand (r : Reading) (command : Command) : Reading :=
  { r with command := some command, verbose := false, verboseBefore := r.verbose }

/-- Takes an operand: the command, or its input. -/
def operand (r : Reading) (argument : String) : Except Stop Reading :=
  match r.command with
  | none =>
    if r.escaped then .error .usage
    else if argument = "compile" then .ok (r.setCommand .compile)
    else if argument = "functions" then .ok (r.setCommand .functions)
    else .error .usage
  | some .compile =>
    if r.input.isSome || argument.isEmpty then .error .usage
    else .ok { r with input := some argument }
  | some .functions => .error .usage

/-- Takes an option with its long name, and the value written after `=` if there is one. -/
def longOption (r : Reading) (name : String) (value? : Option (List Char)) : Except Stop Reading :=
  if name = "verbose" ∧ value? = none then r.setVerbose
  else match r.command with
    | none => .error (if name = "version" ∧ value? = none then .version else .usage)
    | some .compile =>
      if name = "output" then r.setOrWait .output value?
      else if name = "max-depth" then r.setOrWait .limit value?
      else .error .usage
    | some .functions => .error .usage

/-- Takes option letters. What follows a letter that needs a value is the value. -/
def shortOptions (r : Reading) : List Char → Except Stop Reading
  | [] => .ok r
  | c :: rest =>
    if c = 'v' then do (← r.setVerbose).shortOptions rest
    else match r.command with
      | none => .error (if c = 'V' then .version else .usage)
      | some .compile =>
        if c = 'o' then
          r.setOrWait .output (match rest with
            | [] => none
            | '=' :: value => some value
            | value => some value)
        else .error .usage
      | some .functions => .error .usage

def step (r : Reading) (argument : String) : Except Stop Reading :=
  match r.pending, argument.toList with
  | some _, '-' :: _ :: _ => .error .usage
  | some s, value => r.set s value
  | none, '-' :: '-' :: cs =>
    if r.escaped then r.operand argument
    else if cs.isEmpty then .ok { r with escaped := true }
    else
      let name := cs.takeWhile (· != '=')
      let value? := match cs.dropWhile (· != '=') with
        | [] => none
        | _ :: value => some value
      r.longOption (String.ofList name) value?
  | none, '-' :: c :: cs =>
    if r.escaped then r.operand argument else r.shortOptions (c :: cs)
  | none, _ => r.operand argument

def request (r : Reading) : Except Stop Request :=
  match r.pending, r.command with
  | none, some .compile =>
    .ok (.compile ⟨r.input, r.output, r.limit.getD defaultLimit, r.verboseBefore || r.verbose⟩)
  | none, some .functions => .ok .functions
  | _, _ => .error .usage

end Reading

/-- What the arguments ask for; none if they are not understood. -/
def Request.ofArguments? (arguments : List String) : Option Request :=
  match arguments.foldlM Reading.step Reading.start >>= Reading.request with
  | .ok request => some request
  | .error .version => some .version
  | .error .usage => none

end CommandLine
end SheetFormula

import SheetFormula.CommandLine.FileSystem
import SheetFormula.CommandLine.Request
import SheetFormula.Description
import SheetFormula.Registry

/-! Runs of the command line, as a function of the arguments, the standard input and the files. The input
is read first; then the output file is made or emptied; then the description is parsed, built and
compiled; and the formula is written last. What happens while it is compiled is logged on the error
output, before anything else that a run says there. -/

namespace SheetFormula
namespace CommandLine

/-! ### Errors -/

inductive RunError where
  | input (e : FileError)
  | read (path : String) (e : FileError)
  | write (path : String) (e : FileError)
  | parse (e : ParseError)
  | build (e : BuildError)
  | compile (e : CompileError)
  | deliver (e : FileError)
  deriving DecidableEq, Inhabited

namespace RunError

def context : RunError → String
  | input _ => "Failed to read from stdin"
  | read path _ => "Failed to read '" ++ path ++ "'"
  | write path _ => "Failed to write '" ++ path ++ "'"
  | parse _ => "Failed to parse tree description"
  | build _ => "Failed to build formula tree"
  | compile _ => "Failed to compile formula"
  | deliver _ => "Failed to write formula"

def cause : RunError → String
  | input e | read _ e | write _ e | deliver e => e.message
  | parse e => e.message
  | build e => e.message
  | compile e => e.message

/-- A text with every line after the first one set in by four columns. -/
def hang (s : String) : String :=
  String.ofList (s.toList.flatMap fun c => if c = '\n' then "\n    ".toList else [c])

def report (e : RunError) : String :=
  "Error: " ++ e.context ++ "\n\nCaused by:\n    " ++ hang e.cause ++ "\n"

end RunError

/-! ### The log -/

/-- The log of a run: which events are shown in it, and how. -/
structure Logger where
  /-- What the environment of the run wants to see, if it says so. -/
  filter? : Option (Event → Bool)
  /-- The line of an event, after so many others. The time may be in it. -/
  line : Nat → Event → String

namespace Logger

/-- Whether an event is shown. Where the environment says nothing these are the warnings, and with
`verbose` everything but the visits. -/
def shows (l : Logger) (verbose : Bool) (e : Event) : Bool :=
  match l.filter? with
  | some filter => filter e
  | none => match e.severity with
    | .warning => true
    | .debug => verbose
    | .trace => false

/-- The lines of those events that are shown. -/
def text (l : Logger) (verbose : Bool) (events : List Event) : String :=
  String.join ((events.filter (l.shows verbose)).mapIdx l.line)

/-- A log of severities, messages and named fields. -/
def plain : Logger where
  filter? := none
  line _ e := e.severity.name ++ String.join (e.fields.map fun f =>
    if f.1 = "message" then " " ++ f.2 else " " ++ f.1 ++ "=" ++ f.2) ++ "\n"

end Logger

/-! ### The formula -/

/-- The expression that a text describes. -/
def expression (source : String) : Except RunError Expr := do
  let d ← (Description.parse source).mapError .parse
  (d.build .standard).mapError .build

/-- The formula that a text describes, followed by the end of the line. -/
def formulaLine (source : String) (limit : Nat) : Except RunError String := do
  let e ← expression source
  let formula ← (e.compile limit).mapError .compile
  return formula ++ "\n"

/-- What happens on the way to the formula. Nothing is to be seen of it before the expression is built. -/
def formulaEvents (source : String) (limit : Nat) : List Event :=
  match expression source with
  | .ok e => (e.compileTraced limit).events
  | .error _ => []

/-! ### The run -/

/-- The text that bytes stand for. -/
def decode (bytes : ByteArray) : Except FileError String :=
  match String.fromUTF8? bytes with
  | some s => .ok s
  | none => .error .notText

/-- What is reported when a formula was written to a file. -/
def written (path : String) : String := "Wrote formula to '" ++ path ++ "'\n"

/-- The file that a request reads, or none for the standard input. -/
def CompileRequest.inputFile? (r : CompileRequest) : Option String :=
  r.input.filter fun path => !isStandardInput path

/-- The list of the standard functions, each with its arity. -/
def functionList : String :=
  String.join (Registry.standard.definitions.map fun d => d.name ++ "\t" ++ d.arity.text ++ "\n")

def versionLine : String := "ftree 0.1.0\n"

def usage : String :=
  "Usage: ftree [-v] compile [INPUT] [-o FILE] [--max-depth N]\n"
    ++ "       ftree [-v] functions\n"
    ++ "       ftree --version\n"

structure Outcome where
  code : Nat
  out : String
  err : String
  files : FileSystem

namespace Outcome

def failure (log : String) (e : RunError) (fs : FileSystem) : Outcome := ⟨1, "", log ++ e.report, fs⟩

/-- A run that has compiled the formula and writes its line to a target. -/
def delivery (target : FileSystem.Target) (path log line : String) (fs : FileSystem) : Outcome :=
  match target with
  | .device .full => .failure log (.deliver .noSpace) fs
  | .device .stdout => ⟨0, line, log ++ written path, fs⟩
  | .device .stderr => ⟨0, "", log ++ line ++ written path, fs⟩
  | _ => ⟨0, "", log ++ written path, fs.store target line.toUTF8⟩

end Outcome

def CompileRequest.source (r : CompileRequest) (stdin : ByteArray) (fs : FileSystem) :
    Except RunError String :=
  match r.inputFile? with
  | some path => ((fs.read stdin path) >>= decode).mapError (.read path)
  | none => (decode stdin).mapError .input

def CompileRequest.run (r : CompileRequest) (l : Logger) (stdin : ByteArray) (fs : FileSystem) :
    Outcome :=
  match r.source stdin fs with
  | .error e => .failure "" e fs
  | .ok source =>
    let log := l.text r.verbose (formulaEvents source r.limit)
    match r.output with
    | none =>
      match formulaLine source r.limit with
      | .error e => .failure log e fs
      | .ok line => ⟨0, line, log, fs⟩
    | some path =>
      match fs.target path with
      | .error e => .failure "" (.write path e) fs
      | .ok target =>
        match formulaLine source r.limit with
        | .error e => .failure log e (fs.store target .empty)
        | .ok line => .delivery target path log line fs

def run (l : Logger) (arguments : List String) (stdin : ByteArray) (fs : FileSystem) : Outcome :=
  match Request.ofArguments? arguments with
  | none => ⟨2, "", usage, fs⟩
  | some .version => ⟨0, versionLine, "", fs⟩
  | some .functions => ⟨0, functionList, "", fs⟩
  | some (.compile r) => r.run l stdin fs

end CommandLine
end SheetFormula

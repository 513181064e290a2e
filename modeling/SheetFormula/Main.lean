import SheetFormula.CommandLine.Run

/-! The program. It does to the real files and streams what `CommandLine.run` does to the files it is
given, in the same order. -/

namespace SheetFormula
namespace CommandLine

/-- The error that the system reported. Its number comes with either sign. -/
def FileError.ofSystem : IO.Error → FileError
  | .noFileOrDirectory _ _ _ => .notFound
  | .inappropriateType _ number _ =>
    if number = 20 ∨ number = -20 then .notDirectory else .isDirectory
  | e@(.invalidArgument _ number _) =>
    if number = 36 ∨ number = -36 then .nameTooLong else .other (toString e)
  | e@(.resourceExhausted _ number _) =>
    if number = 28 ∨ number = -28 then .noSpace else .other (toString e)
  | e => .other (toString e)

/-- Does something to a file, and says what went wrong in the terms of the command line. -/
def attempt {α : Type} (action : IO α) (context : FileError → RunError) :
    ExceptT RunError IO α :=
  ExceptT.mk (action.toBaseIO >>= fun r => pure (r.mapError fun e => context (.ofSystem e)))

/-- Runs the command `compile` on the real files, and returns what goes to the standard output and
to the error output. The log goes there as soon as it is known. -/
def CompileRequest.perform (r : CompileRequest) (l : Logger) : ExceptT RunError IO (String × String) := do
  let source ← match r.inputFile? with
    | some path => do
      let bytes ← attempt (IO.FS.readBinFile path) (.read path)
      liftExcept ((decode bytes).mapError (.read path))
    | none => do
      let bytes ← attempt (do (← IO.getStdin).readBinToEnd) .input
      liftExcept ((decode bytes).mapError .input)
  let log := l.text r.verbose (formulaEvents source r.limit)
  match r.output with
  | none =>
    IO.eprint log
    return (← liftExcept (formulaLine source r.limit), "")
  | some path =>
    let file ← attempt (IO.FS.Handle.mk path .write) (.write path)
    IO.eprint log
    let line ← liftExcept (formulaLine source r.limit)
    attempt (do file.write line.toUTF8; file.flush) .deliver
    return ("", written path)
where
  liftExcept {α : Type} (x : Except RunError α) : ExceptT RunError IO α := ExceptT.mk (pure x)

end CommandLine
end SheetFormula

open SheetFormula.CommandLine in
def main (arguments : List String) : IO UInt32 := do
  match Request.ofArguments? arguments with
  | none => IO.eprint usage; return 2
  | some .version => IO.print versionLine; return 0
  | some .functions => IO.print functionList; return 0
  | some (.compile r) =>
    match ← (r.perform .plain).run with
    | .ok (out, err) => IO.print out; IO.eprint err; return 0
    | .error e => IO.eprint e.report; return 1

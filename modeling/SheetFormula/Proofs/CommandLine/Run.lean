import Mathlib.Data.List.Basic
import SheetFormula.CommandLine.Run
import SheetFormula.Proofs.CommandLine.FileSystem

/-! What a run does, stage by stage. Once the input is read, the formula of its text is the one that the
text is loaded and compiled to, and the log is the one of this compilation; and of all files a run gives new
contents to at most one, the file that its output path leads to. -/

namespace SheetFormula
namespace CommandLine

variable {r : CompileRequest} {l : Logger} {stdin : ByteArray} {fs : FileSystem} {source line : String}

/-! ### The input -/

theorem decode_toUTF8 (s : String) : decode s.toUTF8 = .ok s := by
  simp only [decode, String.fromUTF8?, String.toUTF8_eq_toByteArray, dif_pos s.isValidUTF8]
  rfl

theorem decode_of_fromUTF8?_eq_none {bytes : ByteArray} (h : String.fromUTF8? bytes = none) :
    decode bytes = .error .notText := by
  rw [decode, h]

/-- Whether the text comes to a request, on the standard input or in the file that it names. -/
def CompileRequest.Receives (r : CompileRequest) (stdin : ByteArray) (fs : FileSystem)
    (source : String) : Prop :=
  match r.inputFile? with
  | none => stdin = source.toUTF8
  | some path => fs.read stdin path = .ok source.toUTF8

/-- What is in a file comes to a request that names the file, from the root or from the working directory. -/
theorem CompileRequest.receives_of_isPathOf {path : String} {names : List String}
    (hinput : r.inputFile? = some path) (hpath : fs.IsPathOf path names)
    (hcontents : fs.contents? names = some source.toUTF8) (stdin : ByteArray) :
    r.Receives stdin fs source := by
  rw [Receives, hinput]
  exact hpath.read hcontents stdin

theorem CompileRequest.source_of_receives (h : r.Receives stdin fs source) :
    r.source stdin fs = .ok source := by
  unfold Receives at h
  unfold CompileRequest.source
  split at h
  next hinput =>
    rw [hinput, h, decode_toUTF8]
    rfl
  next path hinput =>
    have hdecode : (fs.read stdin path >>= decode) = .ok source := by
      rw [h]
      exact decode_toUTF8 source
    simp only [hinput, hdecode]
    rfl

theorem CompileRequest.source_of_not_text (hinput : r.inputFile? = none)
    (h : String.fromUTF8? stdin = none) : r.source stdin fs = .error (.input .notText) := by
  rw [CompileRequest.source, hinput, decode_of_fromUTF8?_eq_none h]
  rfl

/-! ### The formula -/

theorem expression_eq (source : String) :
    expression source =
      match Registry.standard.load source with
      | .error (.parse e) => .error (.parse e)
      | .error (.build e) => .error (.build e)
      | .ok e => .ok e := by
  rw [expression, Registry.load]
  cases Description.parse source with
  | error e => rfl
  | ok description => cases hbuild : description.build .standard <;>
      simp [Except.mapError, hbuild, bind, Except.bind]

theorem formulaLine_eq (source : String) (limit : Nat) :
    formulaLine source limit =
      match Registry.standard.load source with
      | .error (.parse e) => .error (.parse e)
      | .error (.build e) => .error (.build e)
      | .ok e => ((e.compile limit).map (· ++ "\n")).mapError .compile := by
  rw [formulaLine, expression_eq]
  cases Registry.standard.load source with
  | error e => cases e <;> rfl
  | ok e => cases hcompile : e.compile limit <;>
      simp [Except.mapError, Except.map, hcompile, bind, Except.bind, pure, Except.pure]

theorem formulaEvents_of_load_eq_ok {e : Expr} (h : Registry.standard.load source = .ok e) (limit : Nat) :
    formulaEvents source limit = (e.compileTraced limit).events := by
  rw [formulaEvents, expression_eq, h]

theorem formulaEvents_of_load_eq_error {e : LoadError} (h : Registry.standard.load source = .error e)
    (limit : Nat) : formulaEvents source limit = [] := by
  rw [formulaEvents, expression_eq, h]
  cases e <;> rfl

theorem formulaLine_eq_ok_iff {limit : Nat} {formula : String} :
    formulaLine source limit = .ok (formula ++ "\n") ↔
      ∃ e, Registry.standard.load source = .ok e ∧ e.compile limit = .ok formula := by
  rw [formulaLine_eq]
  cases Registry.standard.load source with
  | error e => cases e <;> simp
  | ok e => cases hcompile : e.compile limit <;> simp [Except.mapError, Except.map, hcompile]

/-- The line that a request comes to, with what it reads. -/
def CompileRequest.result (r : CompileRequest) (stdin : ByteArray) (fs : FileSystem) :
    Except RunError String := do
  formulaLine (← r.source stdin fs) r.limit

theorem CompileRequest.result_of_source (h : r.source stdin fs = .ok source) :
    r.result stdin fs = formulaLine source r.limit := by
  rw [result, h]
  rfl

/-! ### The output -/

theorem FileSystem.contents?_put (fs : FileSystem) (names other : List String) (contents : ByteArray) :
    (fs.put names contents).contents? other =
      if names = other then some contents else fs.contents? other := by
  by_cases h : names = other
  · rw [if_pos h, h, contents?_put_self]
  · rw [if_neg h, contents?_put_of_ne fs contents (Ne.symm h)]

namespace CompileRequest

/-- The file that the output path of a request leads to, if it leads to one. -/
def outputFile? (r : CompileRequest) (fs : FileSystem) : Option (List String) :=
  match r.output.map fs.target with
  | some (.ok (.file names)) => some names
  | _ => none

/-- The files, with these contents in the one that the output path leads to. -/
def fill (r : CompileRequest) (fs : FileSystem) (contents : ByteArray) : FileSystem :=
  match r.outputFile? fs with
  | some names => fs.put names contents
  | none => fs

theorem contents?_fill (r : CompileRequest) (fs : FileSystem) (contents : ByteArray)
    (names : List String) : (r.fill fs contents).contents? names =
      if r.outputFile? fs = some names then some contents else fs.contents? names := by
  rw [fill]
  cases r.outputFile? fs with
  | none => simp
  | some file => simp [FileSystem.contents?_put]

theorem contents?_fill_eq_iff {contents : ByteArray} :
    (∀ names, (r.fill fs contents).contents? names = fs.contents? names) ↔
      ∀ names ∈ r.outputFile? fs, fs.contents? names = some contents := by
  simp only [contents?_fill]
  constructor
  · intro hsame names hnames
    exact (hsame names).symm.trans (if_pos hnames)
  · intro hfilled names
    split
    next hnames => exact (hfilled names hnames).symm
    next => rfl

theorem fill_of_output_eq_none (h : r.output = none) (contents : ByteArray) :
    r.fill fs contents = fs := by
  simp [fill, outputFile?, h]

theorem fill_of_target_eq_error {path : String} {e : FileError} (hpath : r.output = some path)
    (htarget : fs.target path = .error e) (contents : ByteArray) : r.fill fs contents = fs := by
  simp [fill, outputFile?, hpath, htarget]

theorem fill_of_target_eq_ok {path : String} {target : FileSystem.Target} (hpath : r.output = some path)
    (htarget : fs.target path = .ok target) (contents : ByteArray) :
    r.fill fs contents = fs.store target contents := by
  cases target <;> simp [fill, outputFile?, hpath, htarget, FileSystem.store]

/-! ### The run -/

theorem run_of_source_eq_error {e : RunError} (h : r.source stdin fs = .error e) :
    r.run l stdin fs = .failure "" e fs := by
  rw [run, h]

/-- A run that has read its input but comes to no formula fails, and leaves the file of its output empty. -/
theorem run_of_formulaLine_eq_error {e : RunError} (hsource : r.source stdin fs = .ok source)
    (hline : formulaLine source r.limit = .error e) :
    ∃ log e', r.run l stdin fs = .failure log e' (r.fill fs .empty) := by
  let log := l.text r.verbose (formulaEvents source r.limit)
  simp only [run, hsource, hline]
  cases hpath : r.output with
  | none => exact ⟨log, e, by rw [fill_of_output_eq_none hpath]⟩
  | some path =>
      cases htarget : fs.target path with
      | error e' =>
          exact ⟨"", .write path e', by simp only [htarget, fill_of_target_eq_error hpath htarget]⟩
      | ok target => exact ⟨log, e, by simp only [htarget, fill_of_target_eq_ok hpath htarget, log]⟩

/-- Whether the output of a request can be written and is kept: it is the standard output, or a file,
which need not be there yet. -/
def Writable (r : CompileRequest) (fs : FileSystem) : Prop :=
  ∀ path ∈ r.output, ∃ names, fs.target path = .ok (.file names)

theorem writable_of_output_eq_none (h : r.output = none) : r.Writable fs := by
  intro path hpath
  rw [h] at hpath
  cases hpath

theorem writable_of_target {path : String} {names : List String} (houtput : r.output = some path)
    (htarget : fs.target path = .ok (.file names)) : r.Writable fs := by
  intro path' hpath'
  cases houtput.symm.trans hpath'
  exact ⟨names, htarget⟩

theorem outputFile?_of_target {path : String} {names : List String} (houtput : r.output = some path)
    (htarget : fs.target path = .ok (.file names)) : r.outputFile? fs = some names := by
  rw [outputFile?, houtput, Option.map_some, htarget]

theorem run_of_writable (hsource : r.source stdin fs = .ok source) (hwritable : r.Writable fs) :
    r.run l stdin fs =
      match formulaLine source r.limit with
      | .error e => .failure (l.text r.verbose (formulaEvents source r.limit)) e (r.fill fs .empty)
      | .ok line => ⟨0, if r.output = none then line else "",
          l.text r.verbose (formulaEvents source r.limit) ++ (r.output.map written).getD "",
          r.fill fs line.toUTF8⟩ := by
  simp only [run, hsource]
  cases hpath : r.output with
  | none =>
      simp only [fill_of_output_eq_none hpath, Option.map_none, Option.getD_none, String.append_empty]
      rfl
  | some path =>
      obtain ⟨names, htarget⟩ := hwritable path hpath
      simp only [htarget, fill_of_target_eq_ok hpath htarget]
      rfl

end CompileRequest

theorem run_eq_of_ofArguments? {arguments : List String}
    (h : Request.ofArguments? arguments = some (.compile r)) :
    run l arguments stdin fs = r.run l stdin fs := by
  rw [run, h]

end CommandLine
end SheetFormula

import SheetFormula.Proofs.CommandLine.Arguments
import SheetFormula.Proofs.CommandLine.ErrorOutput
import SheetFormula.Proofs.CommandLine.Run
import SheetFormula.Proofs.Description.Arguments

/-! The command and the library. However the text comes in and wherever the formula goes, a run delivers
the formula that the text is loaded and compiled to, and fails in the stage in which loading or compiling
fails (`CompileRequest.run_agrees_with_load`). -/

namespace SheetFormula

/-- A text that describes a call is loaded by building the call from its arguments. -/
theorem Registry.load_eq_build {r : Registry} {source op : String} {ds : List Description} {es : List Expr}
    (hparse : Description.parse source = .ok (.call op ds)) (hes : Description.buildAll r ds = .ok es) :
    r.load source = (r.build op es).mapError .build := by
  simp only [load, hparse, Description.build, hes]
  rfl

namespace CommandLine

variable {r : CompileRequest} {l : Logger} {stdin : ByteArray} {fs : FileSystem} {source line : String}

/-- A run that ends well and has put out a text, either by printing it or as all that is in the output
file; whatever is not the output is unchanged. -/
structure Outcome.Delivers (o : Outcome) (r : CompileRequest) (fs : FileSystem) (text : String) : Prop where
  code : o.code = 0
  out : o.out = if r.output = none then text else ""
  contents : ∀ names, o.files.contents? names =
    if r.outputFile? fs = some names then some text.toUTF8 else fs.contents? names

/-- A run that prints nothing and reports what it was about to do, and why it could not: the lines of the
cause, each set in by four columns. The log comes before the report. -/
structure Outcome.Fails (o : Outcome) (log context cause : String) : Prop where
  code : o.code = 1
  out : o.out = ""
  err : ∃ lines : List String, lines ≠ [] ∧ (∀ line ∈ lines, '\n' ∉ line.toList) ∧
    "\n".intercalate lines = cause ∧
    o.err = log ++ "Error: " ++ context ++ "\n\nCaused by:\n" ++
      "\n".intercalate (lines.map ("    " ++ ·)) ++ "\n"

theorem Outcome.failure_fails (log : String) (e : RunError) (fs : FileSystem) :
    (Outcome.failure log e fs).Fails log e.context e.cause := by
  obtain ⟨lines, hne, hlines, hcause, hreport⟩ := e.exists_lines
  refine ⟨rfl, rfl, lines, hne, hlines, hcause, ?_⟩
  rw [failure, hreport]
  simp only [String.append_assoc]

namespace CompileRequest

/-- What a run says that has delivered a formula. -/
def confirmation (r : CompileRequest) : String :=
  match r.output with
  | none => ""
  | some path => "Wrote formula to '" ++ path ++ "'\n"

theorem outputFile?_of_writable {path : String} (hwritable : r.Writable fs)
    (hpath : r.output = some path) : ∃ names, r.outputFile? fs = some names := by
  obtain ⟨names, htarget⟩ := hwritable path hpath
  exact ⟨names, outputFile?_of_target hpath htarget⟩

theorem run_fails_of_source (e : RunError) (hsource : r.source stdin fs = .error e) :
    (r.run l stdin fs).Fails "" e.context e.cause := by
  rw [run_of_source_eq_error hsource]
  exact Outcome.failure_fails "" e fs

theorem run_fails_of_formulaLine {e : RunError} (hsource : r.source stdin fs = .ok source)
    (hwritable : r.Writable fs) (hline : formulaLine source r.limit = .error e) :
    (r.run l stdin fs).Fails (l.text r.verbose (formulaEvents source r.limit)) e.context e.cause := by
  rw [run_of_writable hsource hwritable, hline]
  exact Outcome.failure_fails _ e _

theorem run_delivers_of_formulaLine (hsource : r.source stdin fs = .ok source)
    (hwritable : r.Writable fs) (hline : formulaLine source r.limit = .ok line) :
    (r.run l stdin fs).Delivers r fs line ∧
      (r.run l stdin fs).err = l.text r.verbose (formulaEvents source r.limit) ++ r.confirmation := by
  have hconfirm : (r.output.map written).getD "" = r.confirmation := by
    rw [confirmation]
    cases r.output <;> rfl
  rw [run_of_writable hsource hwritable, hline, hconfirm]
  exact ⟨⟨rfl, rfl, contents?_fill r fs line.toUTF8⟩, rfl⟩

/-- What was delivered can be read off the run, so no two texts are. -/
theorem eq_of_delivers {o : Outcome} {text text' : String} (hwritable : r.Writable fs)
    (h : o.Delivers r fs text) (h' : o.Delivers r fs text') : text = text' := by
  cases hpath : r.output with
  | none =>
      have hout := h.out.symm.trans h'.out
      rwa [if_pos hpath, if_pos hpath] at hout
  | some path =>
      obtain ⟨names, hfile⟩ := outputFile?_of_writable hwritable hpath
      have hcontents := (h.contents names).symm.trans (h'.contents names)
      rw [if_pos hfile, if_pos hfile] at hcontents
      exact String.toByteArray_inj.mp (Option.some.inj hcontents)

theorem run_delivers_iff (hsource : r.source stdin fs = .ok source) (hwritable : r.Writable fs) :
    (r.run l stdin fs).Delivers r fs line ↔ formulaLine source r.limit = .ok line := by
  constructor
  · intro hdelivers
    cases hline : formulaLine source r.limit with
    | error e =>
        have hfails := run_fails_of_formulaLine (l := l) hsource hwritable hline
        exact absurd (hdelivers.code.symm.trans hfails.code) nofun
    | ok line' =>
        have hdelivers' := (run_delivers_of_formulaLine (l := l) hsource hwritable hline).1
        rw [eq_of_delivers hwritable hdelivers hdelivers']
  · exact fun hline => (run_delivers_of_formulaLine hsource hwritable hline).1

/-- A request with a command line is what this line asks for, and the files that it reads and writes can be
named from the root or from the working directory. Whatever the arguments are that ask for
it, what comes in is a text or is not: if not, the standard input cannot be read; and if so, the text and the
limit decide what the run does, in the way that loading and compiling the text do. The compilation is
logged, and before it there is nothing to log. -/
theorem run_agrees_with_load (r : CompileRequest) :
    (r.HasLine → Request.ofArguments? r.line = some (.compile r)) ∧
      (∀ fs path names, FileSystem.IsPathOf fs path names →
        (r.inputFile? = some path → ∀ stdin source, fs.contents? names = some source.toUTF8 →
          r.Receives stdin fs source) ∧
        (r.output = some path → r.Writable fs ∧ r.outputFile? fs = some names)) ∧
      ∀ l arguments stdin fs, Request.ofArguments? arguments = some (.compile r) →
        (r.inputFile? = none → String.fromUTF8? stdin = none →
          (CommandLine.run l arguments stdin fs).Fails "" "Failed to read from stdin"
            "stream did not contain valid UTF-8") ∧
        ∀ source, r.Receives stdin fs source → r.Writable fs →
          (∀ formula, (CommandLine.run l arguments stdin fs).Delivers r fs (formula ++ "\n") ↔
            ∃ e, Registry.standard.load source = .ok e ∧ e.compile r.limit = .ok formula) ∧
          (∀ e formula, Registry.standard.load source = .ok e → e.compile r.limit = .ok formula →
            (CommandLine.run l arguments stdin fs).err = l.log r.verbose e r.limit ++ r.confirmation) ∧
          (∀ e, Registry.standard.load source = .error (.parse e) →
            (CommandLine.run l arguments stdin fs).Fails "" "Failed to parse tree description" e.message) ∧
          (∀ e, Registry.standard.load source = .error (.build e) →
            (CommandLine.run l arguments stdin fs).Fails "" "Failed to build formula tree" e.message) ∧
          ∀ e fault, Registry.standard.load source = .ok e → e.compile r.limit = .error fault →
            (CommandLine.run l arguments stdin fs).Fails (l.log r.verbose e r.limit)
              "Failed to compile formula" fault.message := by
  refine ⟨ofArguments?_line, ?_, ?_⟩
  · intro fs path names hpath
    refine ⟨fun hinput stdin source hcontents => ?_, fun houtput => ?_⟩
    · exact receives_of_isPathOf hinput hpath hcontents stdin
    · exact ⟨writable_of_target houtput hpath.target, outputFile?_of_target houtput hpath.target⟩
  intro l arguments stdin fs hread
  rw [run_eq_of_ofArguments? hread]
  constructor
  · intro hinput hbytes
    exact run_fails_of_source _ (source_of_not_text hinput hbytes)
  intro source hreceives hwritable
  have hsource := source_of_receives hreceives
  have hfails {e : RunError} (hline : formulaLine source r.limit = .error e) :=
    run_fails_of_formulaLine (l := l) hsource hwritable hline
  have hsilent {e : LoadError} (hload : Registry.standard.load source = .error e) :
      l.text r.verbose (formulaEvents source r.limit) = "" := by
    rw [formulaEvents_of_load_eq_error hload]
    rfl
  have hlogged {e : Expr} (hload : Registry.standard.load source = .ok e) :
      l.text r.verbose (formulaEvents source r.limit) = l.log r.verbose e r.limit := by
    rw [formulaEvents_of_load_eq_ok hload, Logger.text_compileTraced]
  refine ⟨fun formula => (run_delivers_iff hsource hwritable).trans formulaLine_eq_ok_iff, ?_, ?_, ?_, ?_⟩
  · intro e formula hload hcompile
    have hline : formulaLine source r.limit = .ok (formula ++ "\n") :=
      formulaLine_eq_ok_iff.mpr ⟨e, hload, hcompile⟩
    rw [(run_delivers_of_formulaLine hsource hwritable hline).2, hlogged hload]
  · intro e hload
    have hline : formulaLine source r.limit = .error (.parse e) := by rw [formulaLine_eq, hload]
    exact hsilent hload ▸ hfails hline
  · intro e hload
    have hline : formulaLine source r.limit = .error (.build e) := by rw [formulaLine_eq, hload]
    exact hsilent hload ▸ hfails hline
  · intro e fault hload hcompile
    have hline : formulaLine source r.limit = .error (.compile fault) := by
      simp only [formulaLine_eq, hload, hcompile]
      rfl
    exact hlogged hload ▸ hfails hline

/-- A formula takes the place of the description that it was compiled from, by another path. A function that
is not known is reported with its name, and on two lines if the name is. A tree that is too deep is logged
before it is reported. -/
theorem run_replaces_own_input_or_reports :
    let r : CompileRequest := ⟨some "/home/tree.json", some "tree.json", 1, false⟩
    let fs : FileSystem := ⟨[(["home", "tree.json"], "\x7b\"field\": \"a b\"\x7d".toUTF8)], [], ["home"]⟩
    let unknown := CommandLine.run .plain ["compile", "-"] "\x7b\"op\": \"LEN\\nGTH\"\x7d".toUTF8 fs
    let deep := CommandLine.run .plain ["compile", "--max-depth", "1"]
      "\x7b\"op\": \"NOT\", \"args\": [\x7b\"field\": \"a\"\x7d]\x7d".toUTF8 fs
    (CommandLine.run .plain ["compile", "/home/tree.json", "--max-depth", "1", "-o", "tree.json"]
        .empty fs).Delivers r fs ("\x7ba b\x7d" ++ "\n") ∧
      (unknown.Fails "" "Failed to build formula tree" "Unknown function: LEN\nGTH" ∧
        unknown.err = "Error: Failed to build formula tree\n\nCaused by:\n" ++
          "    Unknown function: LEN\n    GTH\n") ∧
      deep.Fails "WARN formula tree too deep max_depth=1\n" "Failed to compile formula"
          "Formula tree exceeds the maximum depth of 1" ∧
        deep.err = "WARN formula tree too deep max_depth=1\n" ++ "Error: Failed to compile formula\n\n" ++
          "Caused by:\n    Formula tree exceeds the maximum depth of 1\n" := by
  intro r fs unknown deep
  refine ⟨?_, ⟨?_, by decide +kernel⟩, ?_, by decide +kernel⟩
  · have hread : Request.ofArguments? ["compile", "/home/tree.json", "--max-depth", "1", "-o", "tree.json"] =
        some (.compile r) := by decide
    have hinput : fs.IsPathOf "/home/tree.json" ["home", "tree.json"] :=
      ⟨.fromRoot (List.cons_ne_nil "home" ["tree.json"]) (by decide), by decide, rfl, rfl, rfl⟩
    have houtput : fs.IsPathOf "tree.json" ["home", "tree.json"] :=
      ⟨.fromWorking (List.cons_ne_nil "tree.json" []) (by decide), by decide, rfl, rfl, rfl⟩
    have hreceives := ((run_agrees_with_load r).2.1 fs _ _ hinput).1 rfl .empty _ rfl
    have hwritable := (((run_agrees_with_load r).2.1 fs _ _ houtput).2 rfl).1
    have hline : formulaLine "\x7b\"field\": \"a b\"\x7d" r.limit = .ok ("\x7ba b\x7d" ++ "\n") := by
      decide +kernel
    have hruns := ((run_agrees_with_load r).2.2 .plain _ .empty fs hread).2 _ hreceives hwritable
    exact (hruns.1 _).mpr (formulaLine_eq_ok_iff.mp hline)
  · let source := "\x7b\"op\": \"LEN\\nGTH\"\x7d"
    have hread : Request.ofArguments? ["compile", "-"] =
        some (.compile ⟨some "-", none, defaultLimit, false⟩) := by decide
    have hparse : Description.parse source = .ok (.call "LEN\nGTH" []) := by decide +kernel
    have hget : Registry.standard.get? "LEN\nGTH" = none := by decide +kernel
    have hload : Registry.standard.load source = .error (.build (.unknownFunction "LEN\nGTH")) := by
      rw [Registry.load_eq_build hparse rfl, Registry.build, hget]
      rfl
    have hruns := ((run_agrees_with_load _).2.2 .plain _ _ fs hread).2 source rfl
      (writable_of_output_eq_none rfl)
    exact hruns.2.2.2.1 _ hload
  · let source := "\x7b\"op\": \"NOT\", \"args\": [\x7b\"field\": \"a\"\x7d]\x7d"
    have hread : Request.ofArguments? ["compile", "--max-depth", "1"] =
        some (.compile ⟨none, none, 1, false⟩) := by decide
    have hparse : Description.parse source = .ok (.call "NOT" [.field "a"]) := by decide +kernel
    have hget : Registry.standard.get? "NOT" = some ⟨"NOT", .exactly 1, .unary .not⟩ := by decide +kernel
    have hload : Registry.standard.load source = .ok (.unary .not (.field "a")) := by
      rw [Registry.load_eq_build hparse rfl, Registry.build, hget]
      rfl
    have hlog : Logger.plain.log false (.unary .not (.field "a")) 1 =
        "WARN formula tree too deep max_depth=1\n" := by decide +kernel
    have hmessage : (CompileError.tooDeep 1).message = "Formula tree exceeds the maximum depth of 1" := by
      decide +kernel
    have hruns := ((run_agrees_with_load _).2.2 .plain _ _ fs hread).2 source rfl
      (writable_of_output_eq_none rfl)
    rw [← hlog, ← hmessage]
    exact hruns.2.2.2.2 _ _ hload rfl

end CompileRequest

end CommandLine
end SheetFormula

import SheetFormula.Proofs.CommandLine.Run

/-! What a run that comes to no formula leaves behind. The output file is made or emptied before the
description is looked at, so it is left empty whenever the input could be read. -/

namespace SheetFormula
namespace CommandLine

variable {r : CompileRequest} {stdin : ByteArray} {fs : FileSystem} {arguments : List String}

/-- A run that does not come to a formula fails and prints nothing. If its input could not be read it
changes no file. Otherwise its output file is there and empty, and all other files are unchanged; so
nothing is changed if the output is no file, or was an empty one before. -/
theorem failing_run_empties_output (l : Logger)
    (hread : Request.ofArguments? arguments = some (.compile r))
    (hfail : ∃ e, r.result stdin fs = .error e) :
    (run l arguments stdin fs).code = 1 ∧ (run l arguments stdin fs).out = "" ∧
      ((∃ e, r.source stdin fs = .error e) → (run l arguments stdin fs).files = fs) ∧
      (∀ source, r.source stdin fs = .ok source → ∀ names,
        (run l arguments stdin fs).files.contents? names =
          if r.outputFile? fs = some names then some .empty else fs.contents? names) ∧
      ((∀ names, (run l arguments stdin fs).files.contents? names = fs.contents? names) ↔
        (∃ e, r.source stdin fs = .error e) ∨
          ∀ names ∈ r.outputFile? fs, fs.contents? names = some .empty) := by
  obtain ⟨e, he⟩ := hfail
  rw [run_eq_of_ofArguments? hread]
  cases hsource : r.source stdin fs with
  | error e' =>
      rw [CompileRequest.run_of_source_eq_error hsource]
      exact ⟨rfl, rfl, fun _ => rfl, nofun, fun _ => .inl ⟨e', rfl⟩, fun _ _ => rfl⟩
  | ok source =>
      rw [CompileRequest.result_of_source hsource] at he
      obtain ⟨log, e', hrun⟩ := CompileRequest.run_of_formulaLine_eq_error (l := l) hsource he
      have hfiles : (r.run l stdin fs).files = r.fill fs .empty := by
        rw [hrun]
        rfl
      refine ⟨by rw [hrun]; rfl, by rw [hrun]; rfl, nofun, fun _ _ names => ?_, ?_⟩
      · rw [hfiles, CompileRequest.contents?_fill]
      · rw [hfiles, CompileRequest.contents?_fill_eq_iff]
        exact ⟨.inr, fun h => h.resolve_left nofun⟩

/-- A description that is wrong is lost if the formula was to replace it. -/
theorem failing_run_empties_own_input :
    let fs : FileSystem := ⟨[(["home", "tree.json"], "\x7b\"op\": \"LEN\"\x7d".toUTF8)], [], ["home"]⟩
    let arguments := ["compile", "/home/tree.json", "-o", "tree.json"]
    (run .plain arguments .empty fs).files.contents? ["home", "tree.json"] = some .empty := by
  intro fs arguments
  let r : CompileRequest := ⟨some "/home/tree.json", some "tree.json", defaultLimit, false⟩
  have hread : Request.ofArguments? arguments = some (.compile r) := by decide
  have hsource : r.source .empty fs = .ok "\x7b\"op\": \"LEN\"\x7d" :=
    CompileRequest.source_of_receives rfl
  have hline : formulaLine "\x7b\"op\": \"LEN\"\x7d" r.limit =
      .error (.build (.argumentCount "LEN" (.exactly 1) 0)) := by decide +kernel
  have hfail := (CompileRequest.result_of_source hsource).trans hline
  have hfile : r.outputFile? fs = some ["home", "tree.json"] := rfl
  have hempties :=
    (failing_run_empties_output .plain hread ⟨_, hfail⟩).2.2.2.1 _ hsource ["home", "tree.json"]
  rwa [if_pos hfile] at hempties

/-- A formula that an earlier run has written is lost when the next description is wrong. -/
theorem failing_run_loses_formula :
    let fs : FileSystem := ⟨[(["home", "out.txt"], "LEN(a)\n".toUTF8)], [], ["home"]⟩
    let o := run .plain ["compile", "-o", "out.txt"] "\x7b".toUTF8 fs
    o.code = 1 ∧ o.err = RunError.report (.parse (.malformed .endInObject ⟨1, 1⟩)) ∧
      o.files.contents? ["home", "out.txt"] ≠ fs.contents? ["home", "out.txt"] := by
  intro fs o
  let r : CompileRequest := ⟨none, some "out.txt", defaultLimit, false⟩
  have hread : Request.ofArguments? ["compile", "-o", "out.txt"] = some (.compile r) := by decide
  have hsource : r.source "\x7b".toUTF8 fs = .ok "\x7b" := CompileRequest.source_of_receives rfl
  have htarget : fs.target "out.txt" = .ok (.file ["home", "out.txt"]) := rfl
  have hwritable : r.Writable fs := CompileRequest.writable_of_target rfl htarget
  have hline : formulaLine "\x7b" r.limit = .error (.parse (.malformed .endInObject ⟨1, 1⟩)) := by
    decide +kernel
  have hevents : formulaEvents "\x7b" r.limit = [] := by decide +kernel
  have hrun : o = .failure "" (.parse (.malformed .endInObject ⟨1, 1⟩)) (r.fill fs .empty) := by
    rw [show o = r.run .plain "\x7b".toUTF8 fs from run_eq_of_ofArguments? hread,
      CompileRequest.run_of_writable hsource hwritable, hline, hevents]
    rfl
  have hold : fs.contents? ["home", "out.txt"] = some "LEN(a)\n".toUTF8 := rfl
  have hnew : (r.fill fs .empty).contents? ["home", "out.txt"] = some .empty :=
    FileSystem.contents?_put_self fs ["home", "out.txt"] .empty
  rw [hrun]
  refine ⟨rfl, rfl, ?_⟩
  intro hkept
  cases hold.symm.trans (hkept.symm.trans hnew)

end CommandLine
end SheetFormula

import SheetFormula.CommandLine.Run
import SheetFormula.Proofs.Reduction.Events

/-! What a run says on its error output. The report of an error shows the cause line by line
(`RunError.exists_lines`). The log before it has the lines of certain events of the compilation
(`Logger.text_compileTraced`): if the environment does not ask for others, these are at most its beginning,
its end, and that the tree is too deep. -/

namespace SheetFormula
namespace CommandLine

/-! ### Lines -/

theorem notMem_of_mem_splitOn {cs piece : List Char} {c : Char} (h : piece ∈ cs.splitOn c) : c ∉ piece := by
  induction cs generalizing piece with
  | nil =>
      rw [List.splitOn_nil, List.mem_singleton] at h
      rw [h]
      exact List.not_mem_nil
  | cons d cs ih =>
      rw [List.splitOn_cons_eq_if_modifyHead] at h
      split at h
      · rcases List.mem_cons.mp h with rfl | h
        · exact List.not_mem_nil
        · exact ih h
      next hd =>
        obtain ⟨first, rest, hsplit⟩ := List.exists_cons_of_ne_nil (List.splitOn_ne_nil c cs)
        rw [hsplit, List.modifyHead_cons] at h
        rw [hsplit] at ih
        rcases List.mem_cons.mp h with rfl | h
        · rintro (_ | _)
          · simp at hd
          · exact ih List.mem_cons_self ‹_›
        · exact ih (List.mem_cons_of_mem _ h)

/-- Every text is made of lines. -/
theorem exists_lines_of_text (s : String) : ∃ lines : List String, lines ≠ [] ∧
    (∀ line ∈ lines, '\n' ∉ line.toList) ∧ "\n".intercalate lines = s := by
  refine ⟨(s.toList.splitOn '\n').map String.ofList, by simp, ?_, ?_⟩
  · intro line hline
    obtain ⟨piece, hpiece, rfl⟩ := List.mem_map.mp hline
    rw [String.toList_ofList]
    exact notMem_of_mem_splitOn hpiece
  · have hbreak : "\n".toList = ['\n'] := rfl
    have hpieces : (s.toList.splitOn '\n').map (String.toList ∘ String.ofList) = s.toList.splitOn '\n' :=
      List.map_id'' (fun piece => String.toList_ofList) _
    rw [← String.toList_inj, String.toList_intercalate, List.map_map, hbreak, hpieces,
      List.intercalate_splitOn]

theorem setIn_intercalate {lines : List String} (hne : lines ≠ []) :
    "    " ++ "\n    ".intercalate lines = "\n".intercalate (lines.map ("    " ++ ·)) := by
  induction lines with
  | nil => exact absurd rfl hne
  | cons line rest ih =>
      cases rest with
      | nil => rw [List.map_singleton, String.intercalate_singleton, String.intercalate_singleton]
      | cons next rest =>
          have hbreak : "\n    " = "\n" ++ "    " := rfl
          rw [List.map_cons, String.intercalate_cons_of_ne_nil (s := "\n") (by simp), ← ih (by simp),
            String.intercalate_cons_cons]
          simp only [String.append_assoc, hbreak]

/-! ### Reports -/

namespace RunError

theorem hang_append (s t : String) : hang (s ++ t) = hang s ++ hang t := by
  rw [hang, String.toList_append, List.flatMap_append, String.ofList_append]
  rfl

theorem hang_line {line : String} (h : '\n' ∉ line.toList) : hang line = line := by
  have hchars : line.toList.flatMap (fun c => if c = '\n' then "\n    ".toList else [c]) =
      line.toList.flatMap fun c => [c] := by
    refine List.flatMap_congr fun c hc => if_neg ?_
    rintro rfl
    exact h hc
  rw [hang, hchars, List.flatMap_singleton', String.ofList_toList]

/-- What hangs is the lines after the first one. -/
theorem hang_intercalate {lines : List String} (h : ∀ line ∈ lines, '\n' ∉ line.toList) :
    hang ("\n".intercalate lines) = "\n    ".intercalate lines := by
  induction lines with
  | nil => rfl
  | cons line rest ih =>
      obtain ⟨hline, hrest⟩ := List.forall_mem_cons.mp h
      have hbreak : hang "\n" = "\n    " := rfl
      cases rest with
      | nil => rw [String.intercalate_singleton, String.intercalate_singleton, hang_line hline]
      | cons next rest =>
          rw [String.intercalate_cons_cons, String.intercalate_cons_cons, hang_append, hang_append,
            hang_line hline, hbreak, ih hrest]

/-- A report ends with the lines of the cause, each of them set in. -/
theorem exists_lines (e : RunError) : ∃ lines : List String, lines ≠ [] ∧
    (∀ line ∈ lines, '\n' ∉ line.toList) ∧ "\n".intercalate lines = e.cause ∧
    e.report = "Error: " ++ e.context ++ "\n\nCaused by:\n" ++
      "\n".intercalate (lines.map ("    " ++ ·)) ++ "\n" := by
  obtain ⟨lines, hne, hlines, hcause⟩ := exists_lines_of_text e.cause
  refine ⟨lines, hne, hlines, hcause, ?_⟩
  have hindent : "\n\nCaused by:\n    " = "\n\nCaused by:\n" ++ "    " := rfl
  rw [← setIn_intercalate hne, ← hang_intercalate hlines, hcause, report, hindent]
  simp only [String.append_assoc]

end RunError

/-! ### Logs -/

namespace Logger

/-- The events of a compilation that belong in the log. The environment may choose among all of them.
Otherwise the log says only that a tree is too deep, and with `verbose` how the compilation began and what
it came to. -/
def shown (l : Logger) (verbose : Bool) (e : Expr) (limit : Nat) : List Event :=
  match l.filter? with
  | some filter => (e.compileTraced limit).events.filter filter
  | none =>
    (if verbose then [.started e.operation limit] else []) ++
      match e.compile limit with
      | .ok formula => if verbose then [.finished formula.utf8ByteSize] else []
      | .error (.tooDeep n) => [.tooDeep n]
      | .error _ => []

/-- The log of a compilation, a line for each of these events. -/
def log (l : Logger) (verbose : Bool) (e : Expr) (limit : Nat) : String :=
  String.join ((l.shown verbose e limit).mapIdx l.line)

variable {l : Logger} {verbose : Bool}

theorem filter_visits (h : l.filter? = none) (xs : List Entry) :
    (xs.filterMap Entry.event?).filter (l.shows verbose) = [] := by
  rw [List.filter_eq_nil_iff]
  intro event hevent
  obtain ⟨x, -, hx⟩ := List.mem_filterMap.mp hevent
  obtain ⟨e, -, rfl⟩ := Option.map_eq_some_iff.mp hx
  rw [shows, h]
  exact Bool.false_ne_true

theorem filter_debug (h : l.filter? = none) {event : Event} (hevent : event.severity = .debug) :
    [event].filter (l.shows verbose) = if verbose then [event] else [] := by
  cases verbose <;> simp [shows, h, hevent]

/-- Of the entries of a tree the log says only that one of them is too deep. -/
theorem filter_events_replay (h : l.filter? = none) {xs : List Entry} {limit : Nat} {err : CompileError}
    (hfault : xs.findSome? (Entry.fault? limit) = some err) :
    (Entry.replay limit xs).events.filter (l.shows verbose) =
      match err with
      | .tooDeep n => [.tooDeep n]
      | _ => [] := by
  obtain ⟨before, x, after, rfl, hx, hbefore⟩ := List.findSome?_eq_some_iff.mp hfault
  rw [Entry.events_replay_of_fault after hbefore hx, List.filter_append, filter_visits h, List.nil_append]
  rcases Entry.fault?_eq_some.mp hx with ⟨hlevel, rfl⟩ | ⟨hlevel, hown⟩
  · rw [Entry.events_visit_of_lt hlevel]
    simp [shows, h, Event.severity]
  · have hvisit : (x.visit limit).events = [x].filterMap Entry.event? := by
      rw [Entry.events_visit_of_le hlevel]
      cases hevent : x.event? <;> simp [hevent]
    rw [hvisit, filter_visits h]
    cases err with
    | tooDeep n => exact absurd hown (Subject.ownFault?_ne_tooDeep _ n)
    | missing | notFinite => rfl

theorem filter_compileTraced (l : Logger) (verbose : Bool) (e : Expr) (limit : Nat) :
    (e.compileTraced limit).events.filter (l.shows verbose) = l.shown verbose e limit := by
  cases h : l.filter? with
  | some filter =>
      have hshows : l.shows verbose = filter := funext fun event => by rw [shows, h]
      rw [shown, h, hshows]
  | none =>
      rw [shown, h, Expr.events_compileTraced, ← List.singleton_append, List.filter_append,
        filter_debug h rfl, List.filter_append]
      congr 1
      cases hresult : e.compile limit with
      | ok formula =>
          rw [Entry.events_replay_of_faultless (Expr.compile_eq_ok_iff.mp hresult).1, filter_visits h]
          exact filter_debug h rfl
      | error err =>
          rw [filter_events_replay h (Expr.compile_eq_error_iff.mp hresult), Expr.finish, List.filter_nil,
            List.append_nil]
          cases err <;> rfl

theorem text_compileTraced (l : Logger) (verbose : Bool) (e : Expr) (limit : Nat) :
    l.text verbose (e.compileTraced limit).events = l.log verbose e limit := by
  rw [text, log, filter_compileTraced]

end Logger

end CommandLine
end SheetFormula

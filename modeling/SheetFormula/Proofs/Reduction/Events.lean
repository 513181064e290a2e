import Mathlib.Data.List.Perm.Basic
import SheetFormula.Proofs.Reduction.Replay

/-! The events of a compilation, entry by entry. An entry that is not too deep adds its event, whether or
not something is wrong with it, and one that is too deep adds the warning in the place of its event; the
entries after the first fault add nothing. So the log of a run is read off the list of entries. On
success all of the entries are in it, and those that are expressions are the expressions that the tree
is put together from, each as often as it occurs. -/

namespace SheetFormula

open Traced

/-- An event as it is seen from outside: its severity and its named fields. -/
abbrev Report := Severity × List (String × String)

def Event.report (x : Event) : Report := (x.severity, x.fields)

/-! ### What a log says -/

namespace Report

def opening (op : Operation) (limit : Nat) : Report :=
  (.debug, [("message", "compiling formula"), ("operation", op.name), ("max_depth", toString limit)])

def visit (op : Operation) (level : Nat) : Report :=
  (.trace, [("message", "reducing node"), ("operation", op.name), ("depth", toString level)])

def warning (limit : Nat) : Report :=
  (.warning, [("message", "formula tree too deep"), ("max_depth", toString limit)])

/-- The last report of a log that ends with a formula: its number of UTF-8 bytes. -/
def closing (formula : String) : Report :=
  (.debug, [("message", "compiled formula"), ("len", toString formula.utf8ByteSize)])

end Report

/-- The log of a compilation. -/
def Expr.log (e : Expr) (limit : Nat) : List Report := (e.compileTraced limit).events.map Event.report

namespace Entry

/-- The expression at an entry. -/
def expr? (x : Entry) : Option Expr :=
  match x.subject with
  | .expr e => some e
  | .branch _ => none

/-- The event that an entry adds to a run: the visit of an expression. A branch of a `switch` has none. -/
def event? (x : Entry) : Option Event := x.expr?.map fun e => .visited e.operation x.level

/-- What the log says of an entry: the operation of an expression and its level, and of a branch nothing. -/
def report? (x : Entry) : Option Report := x.expr?.map fun e => .visit e.operation x.level

theorem report?_eq (x : Entry) : x.report? = x.event?.map Event.report := by
  rw [report?, event?, Option.map_map]
  rfl

theorem filterMap_report? (xs : List Entry) :
    xs.filterMap report? = (xs.filterMap event?).map Event.report := by
  rw [List.map_filterMap]
  exact List.filterMap_congr fun x _ => x.report?_eq

/-! ### The events of a run over entries -/

theorem events_enter_of_le {limit : Nat} {x : Entry} (h : x.level ≤ limit) :
    (x.enter limit).events = x.event?.toList := by
  rw [enter, if_neg (Nat.not_lt.mpr h), event?, expr?]
  cases x.subject <;> rfl

theorem events_visit_of_le {limit : Nat} {x : Entry} (h : x.level ≤ limit) :
    (x.visit limit).events = x.event?.toList := by
  rw [visit, events_bind_of_ok _ (result_enter_of_le h), events_enter_of_le h]
  cases x.subject.ownFault? <;> exact List.append_nil _

theorem events_visit_of_lt {limit : Nat} {x : Entry} (h : limit < x.level) :
    (x.visit limit).events = [.tooDeep limit] := by
  rw [visit, enter, if_pos h]
  rfl

theorem events_replay_append {limit : Nat} {xs : List Entry} (ys : List Entry)
    (h : ∀ x ∈ xs, x.fault? limit = none) :
    (replay limit (xs ++ ys)).events = xs.filterMap event? ++ (replay limit ys).events := by
  induction xs with
  | nil => rfl
  | cons x xs ih =>
      obtain ⟨hx, hxs⟩ := List.forall_mem_cons.mp h
      have hle : x.level ≤ limit := (fault?_eq_none.mp hx).1
      rw [List.cons_append, replay_cons, events_bind_of_ok _ (result_visit_of_faultless hx),
        events_visit_of_le hle, ih hxs, ← List.append_assoc]
      cases h : x.event? <;> simp [h]

theorem events_replay_of_faultless {limit : Nat} {xs : List Entry}
    (h : ∀ x ∈ xs, x.fault? limit = none) : (replay limit xs).events = xs.filterMap event? := by
  have hevents := events_replay_append [] h
  rwa [List.append_nil, replay_nil, events_ok, List.append_nil] at hevents

/-- A run ends at the first entry with a fault. -/
theorem events_replay_of_fault {limit : Nat} {before : List Entry} {x : Entry} {err : CompileError}
    (after : List Entry) (hbefore : ∀ y ∈ before, y.fault? limit = none)
    (hx : x.fault? limit = some err) :
    (replay limit (before ++ x :: after)).events =
      before.filterMap event? ++ (x.visit limit).events := by
  rw [events_replay_append _ hbefore, replay_cons, events_bind_of_error _ (result_visit_of_fault hx)]

/-! ### The expressions among the entries -/

theorem filterMap_expr?_flatMap (cs : List Subject) (level : Nat) :
    (cs.flatMap (Subject.entries level)).filterMap expr? =
      cs.flatMap fun c => (c.entries level).filterMap expr? :=
  List.filterMap_flatMap ..

end Entry

/-- The expressions that a subject is put together from. -/
def Subject.occurrences : Subject → List Expr
  | expr e => e.occurrences
  | branch b => b.children.flatMap Expr.occurrences

theorem Branch.subjects_perm (b : Branch) : b.subjects.Perm (b.children.map .expr) := by
  cases b with
  | when condition value => exact List.Perm.swap ..
  | otherwise value => exact List.Perm.refl _

theorem Branch.occurrences_subjects (b : Branch) :
    (b.subjects.flatMap Subject.occurrences).Perm (b.children.flatMap Expr.occurrences) := by
  have h := b.subjects_perm.flatMap_right Subject.occurrences
  rwa [List.flatMap_map] at h

theorem Expr.occurrences_subjects (e : Expr) :
    (e.subjects.flatMap Subject.occurrences).Perm (e.children.flatMap Expr.occurrences) := by
  cases e with
  | branch b => exact b.occurrences_subjects
  | switch pattern branches =>
      rw [subjects, children, List.flatMap_cons, List.flatMap_cons, List.flatMap_map,
        List.flatMap_assoc]
      exact List.Perm.refl _
  | _ => exact List.Perm.of_eq (List.flatMap_map ..)

/-- The expressions among the entries of a subject are those that it is put together from. Their orders
differ, because the value of a branch is visited before its condition. -/
theorem Subject.filterMap_expr?_entries (s : Subject) (level : Nat) :
    ((s.entries level).filterMap Entry.expr?).Perm s.occurrences := by
  induction s using Subject.induction generalizing level with
  | step s ih =>
      have hbelow : (s.subjects.flatMap fun c => (c.entries (level + 1)).filterMap Entry.expr?).Perm
          (s.subjects.flatMap occurrences) :=
        List.Perm.flatMap_left _ fun c hc => ih c hc (level + 1)
      rw [entries_eq]
      cases s with
      | branch b =>
          rw [List.filterMap_cons_none rfl, Entry.filterMap_expr?_flatMap]
          exact hbelow.trans b.occurrences_subjects
      | expr e =>
          have hexpr : Entry.expr? ⟨level, expr e⟩ = some e := rfl
          rw [List.filterMap_cons_some hexpr, Entry.filterMap_expr?_flatMap, occurrences, e.occurrences_eq]
          exact (hbelow.trans e.occurrences_subjects).cons e

theorem Expr.mem_occurrences_iff {e c : Expr} :
    c ∈ e.occurrences ↔ ∃ x ∈ (Subject.expr e).entries 1, x.subject = .expr c := by
  have hperm := (Subject.expr e).filterMap_expr?_entries 1
  rw [Subject.occurrences] at hperm
  rw [← hperm.mem_iff, List.mem_filterMap]
  refine exists_congr fun x => and_congr_right fun _ => ?_
  rw [Entry.expr?]
  cases x.subject <;> simp

theorem Expr.ownFault?_ne_tooDeep (e : Expr) (n : Nat) : e.ownFault? ≠ some (.tooDeep n) := by
  cases e with
  | number value | field value =>
      rw [ownFault?]
      split <;> nofun
  | join es | concatenate es | arrayJoin es _ | logical _ es | switch _ es => cases es <;> nofun
  | _ => nofun

theorem Subject.ownFault?_ne_tooDeep (s : Subject) (n : Nat) : s.ownFault? ≠ some (.tooDeep n) := by
  cases s with
  | expr e => exact e.ownFault?_ne_tooDeep n
  | branch b => nofun

/-! ### The log of a compilation -/

namespace Expr

/-- The last event of a compilation that has a formula. -/
def finish : Except CompileError String → List Event
  | .ok formula => [.finished formula.utf8ByteSize]
  | .error _ => []

/-- A compilation announces itself, runs over the entries, and announces a formula. -/
theorem events_compileTraced (e : Expr) (limit : Nat) :
    (e.compileTraced limit).events = .started e.operation limit ::
      ((Entry.replay limit ((Subject.expr e).entries 1)).events ++ finish (e.compile limit)) := by
  have hresult := Entry.result_replay limit ((Subject.expr e).entries 1)
  rw [compileTraced, reduce_eq_replay, events_bind_of_ok _ (result_emit _), bind_assoc, compile_eq]
  cases h : ((Subject.expr e).entries 1).findSome? (Entry.fault? limit) with
  | none =>
      rw [h] at hresult
      rw [events_bind_of_ok _ hresult]
      rfl
  | some err =>
      rw [h] at hresult
      rw [events_bind_of_error _ hresult, finish, List.append_nil]
      rfl

theorem log_of_ok {e : Expr} {limit : Nat} {formula : String} (h : e.compile limit = .ok formula) :
    e.log limit = .opening e.operation limit ::
      (((Subject.expr e).entries 1).filterMap Entry.report? ++ [.closing formula]) := by
  have hevents := Entry.events_replay_of_faultless (compile_eq_ok_iff.mp h).1
  rw [log, events_compileTraced, h, hevents, Entry.filterMap_report?, List.map_cons, List.map_append]
  rfl

/-- The log of a compilation that fails ends at the first entry with a fault. -/
theorem log_of_error {e : Expr} {limit : Nat} {err : CompileError} (h : e.compile limit = .error err) :
    ∃ before x after, (Subject.expr e).entries 1 = before ++ x :: after ∧
      (∀ y ∈ before, y.level ≤ limit ∧ y.subject.ownFault? = none) ∧
      (limit < x.level ∧ err = .tooDeep limit ∧ e.log limit =
          .opening e.operation limit :: (before.filterMap Entry.report? ++ [.warning limit]) ∨
        x.level ≤ limit ∧ x.subject.ownFault? = some err ∧ e.log limit =
          .opening e.operation limit :: (before ++ [x]).filterMap Entry.report?) := by
  obtain ⟨before, x, after, hsplit, hx, hbefore⟩ :=
    List.findSome?_eq_some_iff.mp (compile_eq_error_iff.mp h)
  have hevents := e.events_compileTraced limit
  rw [h, finish, List.append_nil, hsplit, Entry.events_replay_of_fault after hbefore hx] at hevents
  refine ⟨before, x, after, hsplit, fun y hy => Entry.fault?_eq_none.mp (hbefore y hy), ?_⟩
  rcases Entry.fault?_eq_some.mp hx with ⟨hlevel, herr⟩ | ⟨hlevel, hown⟩
  · refine Or.inl ⟨hlevel, herr, ?_⟩
    rw [log, hevents, Entry.events_visit_of_lt hlevel, Entry.filterMap_report?, List.map_cons,
      List.map_append]
    rfl
  · refine Or.inr ⟨hlevel, hown, ?_⟩
    have hlast : [x].filterMap Entry.event? = x.event?.toList := by
      cases h : x.event? <;> simp [h]
    rw [log, hevents, Entry.events_visit_of_le hlevel, Entry.filterMap_report?, List.filterMap_append,
      hlast, List.map_cons]
    rfl

theorem severity_ne_warning {e : Expr} {limit : Nat} {xs : List Entry} {r : Report}
    (h : r ∈ Report.opening e.operation limit :: xs.filterMap Entry.report?) : r.1 ≠ .warning := by
  rcases List.mem_cons.mp h with rfl | h
  · exact nofun
  · obtain ⟨x, -, hx⟩ := List.mem_filterMap.mp h
    obtain ⟨c, -, rfl⟩ := Option.map_eq_some_iff.mp hx
    exact nofun

/-- The log of a compilation. It opens with the operation and the limit. On success it goes on with the
entries that are expressions, each at its level, and closes with the number of bytes of the formula;
these expressions are those that the tree is put together from, each as often as it occurs. On failure
the log ends at the entry with the first fault: with the visit of it, if the fault is its own, and with a
warning in the place of the visit, if it is too deep. There is a warning if and only if the tree is too
deep, and it comes last and only once. -/
theorem log_traces_reduction (e : Expr) (limit : Nat) :
    (∀ formula, e.compile limit = .ok formula →
      e.log limit = .opening e.operation limit ::
        (((Subject.expr e).entries 1).filterMap Entry.report? ++ [.closing formula]) ∧
      (((Subject.expr e).entries 1).filterMap Entry.expr?).Perm e.occurrences) ∧
    (∀ err, e.compile limit = .error err →
      ∃ before x after, (Subject.expr e).entries 1 = before ++ x :: after ∧
        (∀ y ∈ before, y.level ≤ limit ∧ y.subject.ownFault? = none) ∧
        (limit < x.level ∧ err = .tooDeep limit ∧ e.log limit =
            .opening e.operation limit :: (before.filterMap Entry.report? ++ [.warning limit]) ∨
          x.level ≤ limit ∧ x.subject.ownFault? = some err ∧ e.log limit =
            .opening e.operation limit :: (before ++ [x]).filterMap Entry.report?)) ∧
    (∀ n, e.compile limit = .error (.tooDeep n) →
      n = limit ∧ ∃ past, e.log limit = past ++ [.warning limit] ∧ ∀ r ∈ past, r.1 ≠ .warning) ∧
    (∀ r ∈ e.log limit, r.1 = .warning → e.compile limit = .error (.tooDeep limit)) := by
  refine ⟨fun formula h => ⟨log_of_ok h, (Subject.expr e).filterMap_expr?_entries 1⟩,
    fun err => log_of_error, ?_, ?_⟩
  · intro n h
    obtain ⟨before, x, after, -, -, ⟨-, herr, hlog⟩ | ⟨-, hown, -⟩⟩ := log_of_error h
    · cases herr
      exact ⟨rfl, _, hlog, fun r hr => severity_ne_warning hr⟩
    · exact absurd hown (Subject.ownFault?_ne_tooDeep _ n)
  · intro r hr hwarning
    cases hresult : e.compile limit with
    | ok formula =>
        rw [log_of_ok hresult, ← List.cons_append, List.mem_append, List.mem_singleton] at hr
        rcases hr with hr | rfl
        · exact absurd hwarning (severity_ne_warning hr)
        · cases hwarning
    | error err =>
        obtain ⟨before, x, after, -, -, ⟨-, rfl, -⟩ | ⟨-, -, hlog⟩⟩ := log_of_error hresult
        · rfl
        · rw [hlog] at hr
          exact absurd hwarning (severity_ne_warning hr)

end Expr

end SheetFormula

import SheetFormula.Decimal
import SheetFormula.Operation

/-! Results together with the events on the way to them. A step that fails ends the run: what would
have come after it adds no event. A run is known by its events and its result (`ext`), and those of two
runs in a row come from the two alone (`events_bind_of_ok`, `events_bind_of_error`). -/

namespace SheetFormula

/-! ### Why an expression has no formula text -/

/-- What a formula cannot be written without. -/
inductive MissingPart where
  /-- The arguments of an operation that takes one or more. -/
  | arguments (op : Operation)
  | branches
  | fieldName
  | root
  deriving DecidableEq, Inhabited

inductive CompileError where
  | missing (part : MissingPart)
  /-- A number that has no decimal form. -/
  | notFinite (value : Binary64)
  /-- The expression is nested deeper than the limit. -/
  | tooDeep (limit : Nat)
  deriving DecidableEq, Inhabited

def MissingPart.message : MissingPart → String
  | arguments op => op.name ++ " has no arguments"
  | branches => "SWITCH has no cases"
  | fieldName => "field reference has no name"
  | root => "no root node attached"

def CompileError.message : CompileError → String
  | missing part => "Missing value: " ++ part.message
  | notFinite value => "Number literal is not finite: " ++ value.text
  | tooDeep limit => "Formula tree exceeds the maximum depth of " ++ toString limit

/-! ### What happens while an expression is compiled -/

/-- How much attention an event deserves. -/
inductive Severity where
  | trace | debug | warning
  deriving DecidableEq, Inhabited

def Severity.name : Severity → String
  | trace => "TRACE"
  | debug => "DEBUG"
  | warning => "WARN"

inductive Event where
  /-- A compilation begins, at the given expression and under the given limit. -/
  | started (op : Operation) (limit : Nat)
  /-- An expression is visited at the given level, the outermost one at level one. -/
  | visited (op : Operation) (level : Nat)
  /-- The limit does not let the compilation go one level deeper. -/
  | tooDeep (limit : Nat)
  /-- The compilation ends with a text of the given number of UTF-8 bytes. -/
  | finished (bytes : Nat)
  deriving DecidableEq, Inhabited

namespace Event

def severity : Event → Severity
  | started _ _ | finished _ => .debug
  | visited _ _ => .trace
  | tooDeep _ => .warning

/-- The named fields that an event is reported with. -/
def fields : Event → List (String × String)
  | started op limit =>
    [("message", "compiling formula"), ("operation", op.name), ("max_depth", toString limit)]
  | visited op level =>
    [("message", "reducing node"), ("operation", op.name), ("depth", toString level)]
  | tooDeep limit => [("message", "formula tree too deep"), ("max_depth", toString limit)]
  | finished bytes => [("message", "compiled formula"), ("len", toString bytes)]

end Event

/-! ### Runs -/

/-- A result or an error, with the events that led to it. A run puts its events in front of those before
it, the latest first, so that none of them is ever copied. -/
structure Traced (α : Type) where
  run : List Event → List Event × Except CompileError α
  /-- What came before changes neither the events nor the result. -/
  run_eq (past : List Event) : run past = ((run []).1 ++ past, (run []).2)

namespace Traced

variable {α β : Type}

def events (x : Traced α) : List Event := (x.run []).1.reverse

/-- The result, or the error that ended the run. -/
def result (x : Traced α) : Except CompileError α := (x.run []).2

theorem run_eq_events_result (x : Traced α) (past : List Event) :
    x.run past = (x.events.reverse ++ past, x.result) := by
  rw [x.run_eq, events, List.reverse_reverse, result]

theorem ext_run {x y : Traced α} (h : ∀ past, x.run past = y.run past) : x = y := by
  cases x
  cases y
  cases funext h
  rfl

/-- Two runs with the same events and the same result are the same. -/
theorem ext {x y : Traced α} (he : x.events = y.events) (hr : x.result = y.result) : x = y :=
  ext_run fun past => by rw [run_eq_events_result, run_eq_events_result, he, hr]

/-- A result without an event. -/
def ok (a : α) : Traced α := ⟨fun past => (past, .ok a), fun _ => rfl⟩

/-- A failure without an event. -/
def fail (e : CompileError) : Traced α := ⟨fun past => (past, .error e), fun _ => rfl⟩

def emit (event : Event) : Traced Unit := ⟨fun past => (event :: past, .ok ()), fun _ => rfl⟩

/-- Goes on with the result of `x`, if it has one. -/
def bind (x : Traced α) (f : α → Traced β) : Traced β where
  run past :=
    match x.run past with
    | (past, .ok a) => (f a).run past
    | (past, .error e) => (past, .error e)
  run_eq past := by
    rw [x.run_eq past]
    rcases x.run [] with ⟨events, e | a⟩
    · rfl
    · simp only [(f a).run_eq (events ++ past), (f a).run_eq events, List.append_assoc]

instance : Monad Traced where
  pure := ok
  bind := bind

@[simp] theorem events_ok (a : α) : (ok a).events = [] := rfl

@[simp] theorem result_ok (a : α) : (ok a).result = .ok a := rfl

@[simp] theorem events_fail (e : CompileError) : (fail e : Traced α).events = [] := rfl

@[simp] theorem result_fail (e : CompileError) : (fail e : Traced α).result = .error e := rfl

@[simp] theorem events_emit (event : Event) : (emit event).events = [event] := rfl

@[simp] theorem result_emit (event : Event) : (emit event).result = .ok () := rfl

theorem run_bind (x : Traced α) (f : α → Traced β) (past : List Event) :
    (x >>= f).run past = match x.run past with
      | (past, .ok a) => (f a).run past
      | (past, .error e) => (past, .error e) := rfl

theorem events_bind_of_ok {x : Traced α} {a : α} (f : α → Traced β) (h : x.result = .ok a) :
    (x >>= f).events = x.events ++ (f a).events := by
  rw [events, run_bind, run_eq_events_result x, h]
  simp [run_eq_events_result (f a)]

theorem result_bind_of_ok {x : Traced α} {a : α} (f : α → Traced β) (h : x.result = .ok a) :
    (x >>= f).result = (f a).result := by
  rw [result, run_bind, run_eq_events_result x, h]
  simp [run_eq_events_result (f a)]

theorem events_bind_of_error {x : Traced α} {e : CompileError} (f : α → Traced β)
    (h : x.result = .error e) : (x >>= f).events = x.events := by
  rw [events, run_bind, run_eq_events_result x, h]
  simp

theorem result_bind_of_error {x : Traced α} {e : CompileError} (f : α → Traced β)
    (h : x.result = .error e) : (x >>= f).result = .error e := by
  rw [result, run_bind, run_eq_events_result x, h]

@[simp] theorem ok_bind (a : α) (f : α → Traced β) : ok a >>= f = f a := rfl

@[simp] theorem fail_bind (e : CompileError) (f : α → Traced β) : fail e >>= f = fail e := rfl

@[simp] theorem bind_ok (x : Traced α) : x >>= ok = x := by
  apply ext_run
  intro past
  rw [run_bind]
  rcases x.run past with ⟨events, e | a⟩ <;> rfl

instance : LawfulMonad Traced := by
  refine LawfulMonad.mk' Traced bind_ok ok_bind fun x f g => ?_
  apply ext_run
  intro past
  rw [run_bind, run_bind, run_bind]
  rcases x.run past with ⟨events, e | a⟩ <;> rfl

theorem result_map (x : Traced α) (f : α → β) : (x >>= fun a => ok (f a)).result = x.result.map f := by
  cases h : x.result with
  | error err => exact result_bind_of_error _ h
  | ok a => exact result_bind_of_ok _ h

theorem events_map (x : Traced α) (f : α → β) : (x >>= fun a => ok (f a)).events = x.events := by
  cases h : x.result with
  | error err => exact events_bind_of_error _ h
  | ok a => rw [events_bind_of_ok _ h, events_ok, List.append_nil]

theorem result_bind_eq_ok_iff {x : Traced α} {f : α → Traced β} {b : β} :
    (x >>= f).result = .ok b ↔ ∃ a, x.result = .ok a ∧ (f a).result = .ok b := by
  cases h : x.result with
  | error err => simp [result_bind_of_error _ h]
  | ok a => simp [result_bind_of_ok _ h]

/-- Runs `body` one level deeper than `level`, if the limit allows it. -/
def nested (limit level : Nat) (body : Nat → Traced α) : Traced α :=
  if limit ≤ level then do
    emit (.tooDeep limit)
    fail (.tooDeep limit)
  else body (level + 1)

/-- Runs `body` for an operation whose argument list must not be empty. -/
def nonEmpty (op : Operation) (arguments : List β) (body : Traced α) : Traced α :=
  if arguments.isEmpty then fail (.missing (.arguments op)) else body

end Traced

end SheetFormula

import SheetFormula.Operation
import SheetFormula.Text.Uppercase

/-! Registries of functions. A registry keeps its definitions in the order of their names, character
by character, and at most one of any names that differ only in case: a new definition takes the
place of such an older one. -/

namespace SheetFormula

/-! ### Definitions

A function has a name, a number of arguments that it may have, and the operation that it builds. Names
that differ only in case are one name. -/

/-- How many arguments a function takes; without a maximum, any number from the minimum on. -/
structure Arity where
  min : Nat
  max : Option Nat
  deriving DecidableEq, Inhabited

namespace Arity

def exactly (n : Nat) : Arity := ⟨n, some n⟩

def between (min max : Nat) : Arity := ⟨min, some max⟩

def atLeast (min : Nat) : Arity := ⟨min, none⟩

/-- Whether `n` arguments are neither too few nor too many. -/
def admits (a : Arity) (n : Nat) : Bool :=
  a.min ≤ n && match a.max with
    | some max => n ≤ max
    | none => true

def text (a : Arity) : String :=
  match a.max with
  | some max => if max = a.min then toString max else toString a.min ++ " to " ++ toString max
  | none => "at least " ++ toString a.min

end Arity

structure Definition where
  name : String
  arity : Arity
  operation : Operation
  deriving DecidableEq, Inhabited

/-- What names are compared by. -/
def Definition.key (d : Definition) : String := Text.upper d.name

/-- A definition under the operation's own name. -/
def Definition.ofOperation (op : Operation) (arity : Arity) : Definition := ⟨op.name, arity, op⟩

/-! ### Registration -/

/-- Definitions in the order of their names, no two of them under one key. -/
structure Registry where
  definitions : List Definition
  sorted : definitions.Pairwise fun d e => d.name < e.name
  distinct : definitions.Pairwise fun d e => d.key ≠ e.key

namespace Definition

/-- Puts a definition before the first one with a greater name. -/
def insertByName (d : Definition) : List Definition → List Definition
  | [] => [d]
  | e :: es => if d.name < e.name then d :: e :: es else e :: insertByName d es

/-- The definitions under other keys than that of `d`. -/
def others (d : Definition) (ds : List Definition) : List Definition :=
  ds.filter (·.key != d.key)

theorem mem_insertByName {d e : Definition} {ds : List Definition} :
    e ∈ d.insertByName ds ↔ e = d ∨ e ∈ ds := by
  induction ds with
  | nil => simp [insertByName]
  | cons x xs ih =>
    rw [insertByName]
    split
    · simp
    · simp only [List.mem_cons, ih]
      exact or_left_comm

theorem mem_others {d e : Definition} {ds : List Definition} :
    e ∈ d.others ds ↔ e ∈ ds ∧ e.key ≠ d.key := by
  simp [others]

theorem name_ne_of_key_ne {d e : Definition} (h : d.key ≠ e.key) : d.name ≠ e.name :=
  fun hn => h (congrArg Text.upper hn)

theorem sorted_insertByName {d : Definition} {ds : List Definition}
    (hs : ds.Pairwise fun a b => a.name < b.name) (hd : ∀ e ∈ ds, e.key ≠ d.key) :
    (d.insertByName ds).Pairwise fun a b => a.name < b.name := by
  induction ds with
  | nil => exact List.pairwise_singleton ..
  | cons e es ih =>
    obtain ⟨he, hes⟩ := List.pairwise_cons.1 hs
    rw [insertByName]
    split
    next hlt =>
      refine List.pairwise_cons.2 ⟨fun x hx => ?_, hs⟩
      rcases List.mem_cons.1 hx with rfl | hx
      · exact hlt
      · exact String.lt_trans hlt (he x hx)
    next hle =>
      refine List.pairwise_cons.2 ⟨fun x hx => ?_, ih hes fun x hx => hd x (List.mem_cons_of_mem _ hx)⟩
      rcases mem_insertByName.1 hx with rfl | hx
      · refine Decidable.byContradiction fun hge => ?_
        have heq := String.le_antisymm (String.not_lt.1 hle) (String.not_lt.1 hge)
        exact name_ne_of_key_ne (hd e List.mem_cons_self) heq
      · exact he x hx

theorem distinct_insertByName {d : Definition} {ds : List Definition}
    (hs : ds.Pairwise fun a b => a.key ≠ b.key) (hd : ∀ e ∈ ds, e.key ≠ d.key) :
    (d.insertByName ds).Pairwise fun a b => a.key ≠ b.key := by
  induction ds with
  | nil => exact List.pairwise_singleton ..
  | cons e es ih =>
    obtain ⟨he, hes⟩ := List.pairwise_cons.1 hs
    rw [insertByName]
    split
    · exact List.pairwise_cons.2 ⟨fun x hx => (hd x hx).symm, hs⟩
    · refine List.pairwise_cons.2 ⟨fun x hx => ?_, ih hes fun x hx => hd x (List.mem_cons_of_mem _ hx)⟩
      rcases mem_insertByName.1 hx with rfl | hx
      · exact hd e List.mem_cons_self
      · exact he x hx

end Definition

namespace Registry

def empty : Registry := ⟨[], .nil, .nil⟩

instance : Inhabited Registry := ⟨empty⟩

/-- The registry with `d` in the place of the definition under the same key, if there was one. -/
def register (r : Registry) (d : Definition) : Registry where
  definitions := d.insertByName (d.others r.definitions)
  sorted := Definition.sorted_insertByName (r.sorted.filter _) fun _ h => (Definition.mem_others.1 h).2
  distinct := Definition.distinct_insertByName (r.distinct.filter _) fun _ h => (Definition.mem_others.1 h).2

/-- The registry with the definitions of a list registered one after another. -/
def registerAll (r : Registry) (ds : List Definition) : Registry := ds.foldl register r

/-- The definition under a name, in any case. -/
def get? (r : Registry) (name : String) : Option Definition :=
  r.definitions.find? (·.key == Text.upper name)

def names (r : Registry) : List String := r.definitions.map (·.name)

def size (r : Registry) : Nat := r.definitions.length

theorem mem_register {r : Registry} {d e : Definition} :
    e ∈ (r.register d).definitions ↔ e = d ∨ (e ∈ r.definitions ∧ e.key ≠ d.key) := by
  simp only [register, Definition.mem_insertByName, Definition.mem_others]

end Registry

/-! ### The standard registry

It has every function and operator that has an expression of its own, under its own name. -/

/-- How many arguments an operation takes in the standard registry; the literals have none, because
they are not functions. -/
def Operation.standardArity? : Operation → Option Arity
  | text | number | field => none
  | constant _ => some (.exactly 0)
  | join | concatenate => some (.atLeast 1)
  | arrayJoin => some (.atLeast 2)
  | unary _ => some (.exactly 1)
  | count _ => some (.exactly 2)
  | locate _ => some (.between 2 3)
  | mid => some (.exactly 3)
  | replace => some (.exactly 4)
  | substitute => some (.between 3 4)
  | logical _ => some (.atLeast 1)
  | conditional => some (.exactly 3)
  | branch => some (.between 1 2)
  | switch => some (.atLeast 2)
  | operator _ => some (.exactly 2)

def Definition.standard : List Definition :=
  Operation.all.filterMap fun op => op.standardArity?.map (Definition.ofOperation op)

def Registry.standard : Registry := Registry.empty.registerAll Definition.standard

end SheetFormula

import SheetFormula.Compile.Traced
import SheetFormula.Expr
import SheetFormula.Json.Quoted

/-! Compilation of an expression to formula text, from the inside out. Each expression takes one level
of nesting, and so does each branch of a `switch`; the level is checked before anything else about
an expression, and a list that must not be empty is checked before what is in it. The value of a
branch is compiled before its condition, although the text shows the condition first. A cell keeps an
expression to be compiled. -/

namespace SheetFormula

/-! ### Fragments

Formula text is put together from the fragments of the children: each function takes these and returns
the fragment of the whole. -/

namespace Fragment

/-- A text literal. The text stands between the quotes as it is. -/
def text (value : String) : String := "\"" ++ value ++ "\""

/-- A field reference, in braces if its name has a space. -/
def field (name : String) : String :=
  if ' ' ∈ name.toList then "\x7b" ++ name ++ "\x7d" else name

def list (parts : List String) : String := ", ".intercalate parts

def call (name : String) (arguments : List String) : String :=
  name ++ "(" ++ list arguments ++ ")"

def join (parts : List String) : String := " & ".intercalate parts

/-- An array join: the array, already in JSON, and the separator between quotes as it is. -/
def arrayJoin (array separator : String) : String :=
  "ARRAYJOIN(" ++ array ++ ", \"" ++ separator ++ "\")"

/-- An operand, in parentheses if it is compound. -/
def operand (isCompound : Bool) (fragment : String) : String :=
  if isCompound then "(" ++ fragment ++ ")" else fragment

def operator (o : Operator) (left right : String) : String :=
  left ++ " " ++ o.token ++ " " ++ right

/-- A branch: its condition, if there is one, and its value. -/
def branch : Option String → String → String
  | some condition, value => list [condition, value]
  | none, value => value

end Fragment

/-! ### Reduction -/

open Traced

/-- The limit on nesting where none is given. -/
def defaultLimit : Nat := 256

mutual

/-- The fragment of an expression that stands `level` levels deep. -/
def Expr.reduce (limit level : Nat) (e : Expr) : Traced String :=
  nested limit level fun level => do
    emit (.visited e.operation level)
    match e with
    | .text value => ok (Fragment.text value)
    | .number value =>
      if value.isFinite then ok value.text else fail (.notFinite value)
    | .field name =>
      if name.isEmpty then fail (.missing .fieldName) else ok (Fragment.field name)
    | .constant c => ok (Fragment.call c.name [])
    | .join parts => nonEmpty .join parts do
      let parts ← Expr.reduceAll limit level parts
      ok (Fragment.join parts)
    | .concatenate parts => nonEmpty .concatenate parts do
      let parts ← Expr.reduceAll limit level parts
      ok (Fragment.call "CONCATENATE" parts)
    | .arrayJoin parts separator => nonEmpty .arrayJoin parts do
      let parts ← Expr.reduceAll limit level parts
      ok (Fragment.arrayJoin (Json.quoteAll parts) separator)
    | .arrayJoinOf part separator => do
      let part ← part.reduce limit level
      ok (Fragment.arrayJoin (Json.quote part) separator)
    | .unary f argument => do
      let argument ← argument.reduce limit level
      ok (Fragment.call f.name [argument])
    | .count f string amount => do
      let string ← string.reduce limit level
      let amount ← amount.reduce limit level
      ok (Fragment.call f.name [string, amount])
    | .locate f needle haystack start => do
      let needle ← needle.reduce limit level
      let haystack ← haystack.reduce limit level
      let start ← Expr.reduceOption limit level start
      ok (Fragment.call f.name (needle :: haystack :: start.toList))
    | .mid string start length => do
      let string ← string.reduce limit level
      let start ← start.reduce limit level
      let length ← length.reduce limit level
      ok (Fragment.call "MID" [string, start, length])
    | .replace string start length replacement => do
      let string ← string.reduce limit level
      let start ← start.reduce limit level
      let length ← length.reduce limit level
      let replacement ← replacement.reduce limit level
      ok (Fragment.call "REPLACE" [string, start, length, replacement])
    | .substitute string old new index => do
      let string ← string.reduce limit level
      let old ← old.reduce limit level
      let new ← new.reduce limit level
      let index ← Expr.reduceOption limit level index
      ok (Fragment.call "SUBSTITUTE" (string :: old :: new :: index.toList))
    | .logical f arguments => nonEmpty (.logical f) arguments do
      let arguments ← Expr.reduceAll limit level arguments
      ok (Fragment.call f.name arguments)
    | .conditional condition whenTrue whenFalse => do
      let condition ← condition.reduce limit level
      let whenTrue ← whenTrue.reduce limit level
      let whenFalse ← whenFalse.reduce limit level
      ok (Fragment.call "IF" [condition, whenTrue, whenFalse])
    | .branch b => b.reduce limit level
    | .switch pattern branches =>
      if branches.isEmpty then fail (.missing .branches)
      else do
        let pattern ← pattern.reduce limit level
        let branches ← Expr.reduceBranches limit level branches
        ok (Fragment.call "SWITCH" (pattern :: branches))
    | .operator o left right => do
      let leftText ← left.reduce limit level
      let rightText ← right.reduce limit level
      ok (Fragment.operator o (Fragment.operand left.isCompound leftText)
        (Fragment.operand right.isCompound rightText))

/-- The fragment of a branch whose parts stand `level` levels deep. -/
def Branch.reduce (limit level : Nat) : Branch → Traced String
  | .when condition value => do
    let value ← value.reduce limit level
    let condition ← condition.reduce limit level
    ok (Fragment.branch (some condition) value)
  | .otherwise value => do
    let value ← value.reduce limit level
    ok (Fragment.branch none value)

def Expr.reduceAll (limit level : Nat) : List Expr → Traced (List String)
  | [] => ok []
  | e :: es => do
    let fragment ← e.reduce limit level
    let fragments ← Expr.reduceAll limit level es
    ok (fragment :: fragments)

def Expr.reduceOption (limit level : Nat) : Option Expr → Traced (Option String)
  | none => ok none
  | some e => do
    let fragment ← e.reduce limit level
    ok (some fragment)

/-- The fragments of the branches of a `switch`, each one level below it. -/
def Expr.reduceBranches (limit level : Nat) : List Branch → Traced (List String)
  | [] => ok []
  | b :: bs => do
    let fragment ← nested limit level fun level => b.reduce limit level
    let fragments ← Expr.reduceBranches limit level bs
    ok (fragment :: fragments)

end

/-- The formula text of an expression under a limit on nesting, with the events of the run. -/
def Expr.compileTraced (e : Expr) (limit : Nat) : Traced String := do
  emit (.started e.operation limit)
  let formula ← e.reduce limit 0
  emit (.finished formula.utf8ByteSize)
  ok formula

/-- The formula text of an expression under a limit on nesting. -/
def Expr.compile (e : Expr) (limit : Nat) : Except CompileError String :=
  (e.compileTraced limit).result

/-! ### Cells

A cell holds at most one expression, which can be replaced and taken out, and compiles it
under the limit that the cell was made with. -/

/-- A place for one expression. -/
structure Cell where
  root : Option Expr
  limit : Nat

namespace Cell

def empty (limit : Nat) : Cell := ⟨none, limit⟩

instance : Inhabited Cell := ⟨empty defaultLimit⟩

/-- Puts an expression into the cell, and gives back the one it replaces. -/
def attach (c : Cell) (e : Expr) : Option Expr × Cell := (c.root, { c with root := some e })

/-- Empties the cell, and gives back what was in it. -/
def detach (c : Cell) : Option Expr × Cell := (c.root, { c with root := none })

def compile (c : Cell) : Except CompileError String :=
  match c.root with
  | some e => e.compile c.limit
  | none => .error (.missing .root)

end Cell

end SheetFormula

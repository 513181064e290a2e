import SheetFormula.Binary64
import SheetFormula.Operation

/-! Formula expressions. Each kind of expression has its own arguments, so that an expression cannot
hold too few or too many of them; what all kinds share is seen through `Expr.operation` and
`Expr.children`. The one kind that is not an expression of its own is the case of a `switch`, a
`Branch`. -/

namespace SheetFormula

mutual

inductive Expr where
  | text (value : String)
  | number (value : Binary64)
  | field (name : String)
  | constant (c : Constant)
  /-- The parts put together with `&`. -/
  | join (parts : List Expr)
  | concatenate (parts : List Expr)
  /-- The parts of an array put together with a separator between them. -/
  | arrayJoin (parts : List Expr) (separator : String)
  /-- One text in the place of the array. -/
  | arrayJoinOf (part : Expr) (separator : String)
  | unary (f : UnaryFunction) (argument : Expr)
  | count (f : CountFunction) (string amount : Expr)
  | locate (f : LocateFunction) (needle haystack : Expr) (start : Option Expr)
  | mid (string start length : Expr)
  | replace (string start length replacement : Expr)
  | substitute (string old new : Expr) (index : Option Expr)
  | logical (f : Connective) (arguments : List Expr)
  | conditional (condition whenTrue whenFalse : Expr)
  /-- A branch that stands by itself. -/
  | branch (branch : Branch)
  | switch (pattern : Expr) (branches : List Branch)
  | operator (o : Operator) (left right : Expr)

/-- One case of a `switch`; without a condition it is the default. -/
inductive Branch where
  | when (condition value : Expr)
  | otherwise (value : Expr)

end

def Branch.children : Branch → List Expr
  | when condition value => [condition, value]
  | otherwise value => [value]

def Branch.isConditional : Branch → Bool
  | when _ _ => true
  | otherwise _ => false

namespace Expr

instance : Inhabited Expr := ⟨text ""⟩

/-- What an expression does with its children. -/
def operation : Expr → Operation
  | text _ => .text
  | number _ => .number
  | field _ => .field
  | constant c => .constant c
  | join _ => .join
  | concatenate _ => .concatenate
  | arrayJoin _ _ => .arrayJoin
  | arrayJoinOf _ _ => .arrayJoin
  | unary f _ => .unary f
  | count f _ _ => .count f
  | locate f _ _ _ => .locate f
  | mid _ _ _ => .mid
  | replace _ _ _ _ => .replace
  | substitute _ _ _ _ => .substitute
  | logical f _ => .logical f
  | conditional _ _ _ => .conditional
  | branch _ => .branch
  | switch _ _ => .switch
  | operator o _ _ => .operator o

/-- The children in the order in which a formula shows them: of a `switch` the pattern and then the
children of each branch. A separator is not a child. -/
def children : Expr → List Expr
  | text _ | number _ | field _ | constant _ => []
  | join parts | concatenate parts | arrayJoin parts _ => parts
  | arrayJoinOf part _ => [part]
  | unary _ argument => [argument]
  | count _ string amount => [string, amount]
  | locate _ needle haystack start => needle :: haystack :: start.toList
  | mid string start length => [string, start, length]
  | replace string start length replacement => [string, start, length, replacement]
  | substitute string old new index => string :: old :: new :: index.toList
  | logical _ arguments => arguments
  | conditional condition whenTrue whenFalse => [condition, whenTrue, whenFalse]
  | branch b => b.children
  | switch pattern branches => pattern :: branches.flatMap Branch.children
  | operator _ left right => [left, right]

/-- Whether an expression is more than a literal or a constant. -/
def isCompound : Expr → Bool
  | text _ | number _ | field _ | constant _ => false
  | _ => true

/-- Proves a property of every expression from the same property of its children. -/
theorem induction {P : Expr → Prop} (step : ∀ e : Expr, (∀ c ∈ e.children, P c) → P e)
    (e : Expr) : P e := by
  have cons {a : Expr} {as : List Expr} (h : P a) (hs : ∀ c ∈ as, P c) : ∀ c ∈ a :: as, P c :=
    List.forall_mem_cons.2 ⟨h, hs⟩
  exact @Expr.rec P (fun b => ∀ c ∈ b.children, P c) (fun es => ∀ c ∈ es, P c)
    (fun e? => ∀ c ∈ e?.toList, P c) (fun bs => ∀ c ∈ bs.flatMap Branch.children, P c)
    (fun _ => step _ nofun) (fun _ => step _ nofun) (fun _ => step _ nofun) (fun _ => step _ nofun)
    (fun _ hs => step _ hs) (fun _ hs => step _ hs) (fun _ _ hs => step _ hs)
    (fun _ _ h => step _ (cons h nofun)) (fun _ _ h => step _ (cons h nofun))
    (fun _ _ _ h₁ h₂ => step _ (cons h₁ (cons h₂ nofun)))
    (fun _ _ _ _ h₁ h₂ hs => step _ (cons h₁ (cons h₂ hs)))
    (fun _ _ _ h₁ h₂ h₃ => step _ (cons h₁ (cons h₂ (cons h₃ nofun))))
    (fun _ _ _ _ h₁ h₂ h₃ h₄ => step _ (cons h₁ (cons h₂ (cons h₃ (cons h₄ nofun)))))
    (fun _ _ _ _ h₁ h₂ h₃ hs => step _ (cons h₁ (cons h₂ (cons h₃ hs))))
    (fun _ _ hs => step _ hs)
    (fun _ _ _ h₁ h₂ h₃ => step _ (cons h₁ (cons h₂ (cons h₃ nofun))))
    (fun _ hs => step _ hs) (fun _ _ h hs => step _ (cons h hs))
    (fun _ _ _ h₁ h₂ => step _ (cons h₁ (cons h₂ nofun)))
    (fun _ _ h₁ h₂ => cons h₁ (cons h₂ nofun)) (fun _ h => cons h nofun)
    nofun (fun _ _ h hs => cons h hs)
    nofun (fun _ h => cons h nofun)
    nofun (fun _ _ h hs => List.flatMap_cons ▸ List.forall_mem_append.2 ⟨h, hs⟩) e

end Expr

/-! ### Equality

Equal expressions are of the same kinds in the same shape, with the same texts and with numbers that
are numerically equal. So the two zeros make equal expressions, and an expression that holds a NaN is
equal to none, itself included. -/

mutual

def Expr.numEq : Expr → Expr → Bool
  | .text a, .text b => a == b
  | .number a, .number b => a.numEq b
  | .field a, .field b => a == b
  | .constant c, .constant d => c == d
  | .join as, .join bs => Expr.allNumEq as bs
  | .concatenate as, .concatenate bs => Expr.allNumEq as bs
  | .arrayJoin as s, .arrayJoin bs t => Expr.allNumEq as bs && s == t
  | .arrayJoinOf a s, .arrayJoinOf b t => a.numEq b && s == t
  | .unary f a, .unary g b => f == g && a.numEq b
  | .count f a n, .count g b m => f == g && a.numEq b && n.numEq m
  | .locate f a x s, .locate g b y t => f == g && a.numEq b && x.numEq y && Expr.optionNumEq s t
  | .mid a s l, .mid b t m => a.numEq b && s.numEq t && l.numEq m
  | .replace a s l r, .replace b t m u => a.numEq b && s.numEq t && l.numEq m && r.numEq u
  | .substitute a o n i, .substitute b p m j =>
    a.numEq b && o.numEq p && n.numEq m && Expr.optionNumEq i j
  | .logical f as, .logical g bs => f == g && Expr.allNumEq as bs
  | .conditional c a b, .conditional c' a' b' => c.numEq c' && a.numEq a' && b.numEq b'
  | .branch a, .branch b => a.numEq b
  | .switch p as, .switch q bs => p.numEq q && Expr.branchesNumEq as bs
  | .operator o a b, .operator o' a' b' => o == o' && a.numEq a' && b.numEq b'
  | _, _ => false

def Branch.numEq : Branch → Branch → Bool
  | .when c a, .when d b => c.numEq d && a.numEq b
  | .otherwise a, .otherwise b => a.numEq b
  | _, _ => false

def Expr.allNumEq : List Expr → List Expr → Bool
  | [], [] => true
  | a :: as, b :: bs => a.numEq b && Expr.allNumEq as bs
  | _, _ => false

def Expr.optionNumEq : Option Expr → Option Expr → Bool
  | none, none => true
  | some a, some b => a.numEq b
  | _, _ => false

def Expr.branchesNumEq : List Branch → List Branch → Bool
  | [], [] => true
  | a :: as, b :: bs => a.numEq b && Expr.branchesNumEq as bs
  | _, _ => false

end

/-! ### Misuse

Arguments can have the wrong shape for an operation where their number alone does not show it. -/

/-- A shape that an operation does not accept. -/
inductive Misuse where
  /-- A literal has a value and is not applied to arguments. -/
  | literal (op : Operation)
  /-- Too few arguments were left for the ones that the operation requires. -/
  | missingArgument (op : Operation)
  /-- No last argument to take the separator of an array join from. -/
  | missingSeparator
  /-- The last argument of an array join is not a text literal. -/
  | separator (found : Operation)
  /-- An argument of a `switch` after its pattern is not a branch. -/
  | notBranch (found : Operation)
  /-- The operation has no optional argument to set. -/
  | noOptional (op : Operation)
  deriving DecidableEq, Inhabited

def Misuse.message (m : Misuse) : String :=
  "Structural misuse: " ++ match m with
    | literal op => op.name ++ " is a literal, not a function"
    | missingArgument op => op.name ++ " is missing an argument"
    | missingSeparator => "ARRAYJOIN is missing its separator"
    | separator found => "ARRAYJOIN separator must be a text literal, got " ++ found.name
    | notBranch found => "SWITCH expects CASE arguments, got " ++ found.name
    | noOptional op => op.name ++ " has no optional argument"

/-! ### The optional argument

It comes last: the start of a `locate` and the index of a `substitute`. -/

/-- The expression with its optional argument set, in place of one that it may have had. -/
def Expr.withOptional (e argument : Expr) : Except Misuse Expr :=
  match e with
  | .locate f needle haystack _ => .ok (.locate f needle haystack (some argument))
  | .substitute string old new _ => .ok (.substitute string old new (some argument))
  | e => .error (.noOptional e.operation)

end SheetFormula

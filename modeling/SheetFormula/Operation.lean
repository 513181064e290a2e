/-! The vocabulary of formulas: which functions and operators there are, grouped by the arguments they
take, and the name each one has in a formula. -/

namespace SheetFormula

inductive Constant where
  | blank | error | true | false
  deriving DecidableEq, Inhabited

namespace Constant

def all : List Constant := [blank, error, true, false]

def name : Constant → String
  | blank => "BLANK"
  | error => "ERROR"
  | true => "TRUE"
  | false => "FALSE"

end Constant

inductive UnaryFunction where
  | len | upper | lower | trim | textOf | not | isError | encodeUrlComponent
  deriving DecidableEq, Inhabited

namespace UnaryFunction

def all : List UnaryFunction := [len, upper, lower, trim, textOf, not, isError, encodeUrlComponent]

def name : UnaryFunction → String
  | len => "LEN"
  | upper => "UPPER"
  | lower => "LOWER"
  | trim => "TRIM"
  | textOf => "T"
  | not => "NOT"
  | isError => "ISERROR"
  | encodeUrlComponent => "ENCODE_URL_COMPONENT"

end UnaryFunction

/-- Functions of a text and a count. -/
inductive CountFunction where
  | left | right | rept
  deriving DecidableEq, Inhabited

namespace CountFunction

def all : List CountFunction := [left, right, rept]

def name : CountFunction → String
  | left => "LEFT"
  | right => "RIGHT"
  | rept => "REPT"

end CountFunction

/-- Functions that locate a text in another, from an optional start. -/
inductive LocateFunction where
  | find | search
  deriving DecidableEq, Inhabited

namespace LocateFunction

def name : LocateFunction → String
  | find => "FIND"
  | search => "SEARCH"

end LocateFunction

/-- Logical functions of one argument or more. -/
inductive Connective where
  | and | or | xor
  deriving DecidableEq, Inhabited

namespace Connective

def all : List Connective := [and, or, xor]

def name : Connective → String
  | and => "AND"
  | or => "OR"
  | xor => "XOR"

end Connective

/-- Operators written between their two operands. -/
inductive Operator where
  | greaterEqual | lessEqual | less | greater | equal | notEqual
  | add | subtract | multiply | divide
  deriving DecidableEq, Inhabited

namespace Operator

def comparisons : List Operator := [greaterEqual, lessEqual, less, greater, equal, notEqual]

def arithmetic : List Operator := [add, subtract, multiply, divide]

def token : Operator → String
  | greaterEqual => ">="
  | lessEqual => "<="
  | less => "<"
  | greater => ">"
  | equal => "="
  | notEqual => "!="
  | add => "+"
  | subtract => "-"
  | multiply => "*"
  | divide => "/"

def isComparison (o : Operator) : Bool := comparisons.contains o

end Operator

/-- What an expression does with its children. The three literals and each function and operator have
an operation; `branch` is the operation of one case of a `switch`. -/
inductive Operation where
  | text | number | field
  | constant (c : Constant)
  | join | concatenate | arrayJoin
  | unary (f : UnaryFunction)
  | count (f : CountFunction)
  | locate (f : LocateFunction)
  | mid | replace | substitute
  | logical (f : Connective)
  | conditional | branch | switch
  | operator (o : Operator)
  deriving DecidableEq, Inhabited

namespace Operation

/-- The name of an operation; for the functions and operators it is the one written in formulas. -/
def name : Operation → String
  | text => "TEXT"
  | number => "NUMBER"
  | field => "FIELD"
  | constant c => c.name
  | join => "&"
  | concatenate => "CONCATENATE"
  | arrayJoin => "ARRAYJOIN"
  | unary f => f.name
  | count f => f.name
  | locate f => f.name
  | mid => "MID"
  | replace => "REPLACE"
  | substitute => "SUBSTITUTE"
  | logical f => f.name
  | conditional => "IF"
  | branch => "CASE"
  | switch => "SWITCH"
  | operator o => o.token

/-- Every operation, the literals first. -/
def all : List Operation :=
  [text, number, field, join, concatenate, arrayJoin]
    ++ UnaryFunction.all.map unary
    ++ CountFunction.all.map count
    ++ [locate .find, locate .search, mid, replace, substitute]
    ++ Constant.all.map constant
    ++ Connective.all.map logical
    ++ [conditional, branch, switch]
    ++ (Operator.comparisons ++ Operator.arithmetic).map operator

theorem mem_all (op : Operation) : op ∈ all := by
  cases op <;> first | decide | (rename_i f; cases f <;> decide)

/-- The operation with the given name. -/
def ofName? (name : String) : Option Operation := all.find? (·.name == name)

end Operation
end SheetFormula

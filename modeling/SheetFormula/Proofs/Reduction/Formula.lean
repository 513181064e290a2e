import SheetFormula.Compile

/-! The text that an expression compiles to, if it compiles at all. It does not depend on the limit, and
it is defined whatever is wrong with the expression or its parts: compilation adds to it only the
question whether there is a text (`Expr.compile_eq`). -/

namespace SheetFormula

mutual

def Expr.formula : Expr → String
  | .text value => Fragment.text value
  | .number value => value.text
  | .field name => Fragment.field name
  | .constant c => Fragment.call c.name []
  | .join parts => Fragment.join (Expr.formulas parts)
  | .concatenate parts => Fragment.call "CONCATENATE" (Expr.formulas parts)
  | .arrayJoin parts separator =>
    Fragment.arrayJoin (Json.quoteAll (Expr.formulas parts)) separator
  | .arrayJoinOf part separator => Fragment.arrayJoin (Json.quote part.formula) separator
  | .unary f argument => Fragment.call f.name [argument.formula]
  | .count f string amount => Fragment.call f.name [string.formula, amount.formula]
  | .locate f needle haystack start =>
    Fragment.call f.name (needle.formula :: haystack.formula :: (Expr.formula? start).toList)
  | .mid string start length => Fragment.call "MID" [string.formula, start.formula, length.formula]
  | .replace string start length replacement =>
    Fragment.call "REPLACE" [string.formula, start.formula, length.formula, replacement.formula]
  | .substitute string old new index =>
    Fragment.call "SUBSTITUTE"
      (string.formula :: old.formula :: new.formula :: (Expr.formula? index).toList)
  | .logical f arguments => Fragment.call f.name (Expr.formulas arguments)
  | .conditional condition whenTrue whenFalse =>
    Fragment.call "IF" [condition.formula, whenTrue.formula, whenFalse.formula]
  | .branch b => b.formula
  | .switch pattern branches =>
    Fragment.call "SWITCH" (pattern.formula :: Expr.branchFormulas branches)
  | .operator o left right =>
    Fragment.operator o (Fragment.operand left.isCompound left.formula)
      (Fragment.operand right.isCompound right.formula)

/-- The formula text of a branch: its condition, if there is one, and its value. -/
def Branch.formula : Branch → String
  | .when condition value => Fragment.branch (some condition.formula) value.formula
  | .otherwise value => Fragment.branch none value.formula

def Expr.formulas : List Expr → List String
  | [] => []
  | e :: es => e.formula :: Expr.formulas es

def Expr.formula? : Option Expr → Option String
  | none => none
  | some e => some e.formula

def Expr.branchFormulas : List Branch → List String
  | [] => []
  | b :: bs => b.formula :: Expr.branchFormulas bs

end

namespace Expr

@[simp] theorem formulas_eq_map (es : List Expr) : formulas es = es.map formula := by
  induction es with
  | nil => rw [formulas, List.map_nil]
  | cons e es ih => rw [formulas, List.map_cons, ih]

@[simp] theorem formula?_eq_map (e? : Option Expr) : formula? e? = e?.map formula := by
  cases e? with
  | none => rw [formula?, Option.map_none]
  | some e => rw [formula?, Option.map_some]

@[simp] theorem branchFormulas_eq_map (bs : List Branch) :
    branchFormulas bs = bs.map Branch.formula := by
  induction bs with
  | nil => rw [branchFormulas, List.map_nil]
  | cons b bs ih => rw [branchFormulas, List.map_cons, ih]

end Expr
end SheetFormula

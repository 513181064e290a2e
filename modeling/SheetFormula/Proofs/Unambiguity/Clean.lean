import SheetFormula.Proofs.Reduction.Combination
import SheetFormula.Proofs.Text.Numeral

/-! The expressions whose formula text can be read in one way only. Texts and separators have no quote in
them, since a formula does not escape it; field names are words, or have a space and so stand in braces;
a join is one of several parts that are not joins, since a formula does not bracket them; and branches
stand only below a `switch`, all but the last of them with a condition. -/

namespace SheetFormula

/-! ### Clean expressions -/

def isWordStart (c : Char) : Bool := c.isAlpha || c == '_'

def isWordChar (c : Char) : Bool := c.isAlphanum || c == '_'

/-- A letter or an underscore, and then letters, digits and underscores. -/
def isWord : List Char → Bool
  | [] => false
  | c :: rest => isWordStart c && rest.all isWordChar

namespace Expr

/-- Whether an expression itself is clean, whatever is below it. -/
def IsClean : Expr → Prop
  | text value => '"' ∉ value.toList
  | field name =>
    isWord name.toList = true ∨ ' ' ∈ name.toList ∧ '\x7b' ∉ name.toList ∧ '\x7d' ∉ name.toList
  | join parts => 2 ≤ parts.length ∧ ∀ p ∈ parts, p.isJoin = false
  | arrayJoin _ separator | arrayJoinOf _ separator => '"' ∉ separator.toList
  | branch _ => False
  | switch _ branches => ∀ b ∈ branches.dropLast, b.isConditional = true
  | _ => True

/-- Whether an expression and all that is below it are clean. -/
def Clean (e : Expr) : Prop := e.Everywhere IsClean

/-- Whether an expression itself is clean and has no fault. -/
structure IsTidy (e : Expr) : Prop where
  clean : e.IsClean
  faultless : e.ownFault? = none

/-- Whether an expression is clean throughout, and nothing but the limit keeps it from compiling. -/
def Tidy (e : Expr) : Prop := e.Everywhere IsTidy

theorem ownFault?_eq_none_of_compile {e : Expr} {limit : Nat} {formula : String}
    (h : e.compile limit = .ok formula) : e.ownFault? = none := by
  have hroot : ⟨1, .expr e⟩ ∈ (Subject.expr e).entries 1 := by
    rw [Subject.entries_eq]
    exact List.mem_cons_self
  exact (Entry.fault?_eq_none.mp ((compile_eq_ok_iff.mp h).1 _ hroot)).2

theorem isFinite_of_ownFault? {value : Binary64} (h : (number value).ownFault? = none) :
    value.isFinite = true := by
  rw [ownFault?] at h
  split at h
  · assumption
  · cases h

theorem Clean.tidy {e : Expr} {limit : Nat} {formula : String} (hclean : e.Clean)
    (h : e.compile limit = .ok formula) : e.Tidy := by
  induction e using Expr.induction generalizing formula with
  | step e ih =>
      exact .intro ⟨hclean.here, ownFault?_eq_none_of_compile h⟩ fun c hc =>
        ih c hc (hclean.of_mem_children hc) (compile_of_mem_children h hc)

end Expr
end SheetFormula

import Mathlib.Data.List.Forall2
import SheetFormula.Proofs.Reduction.Replay

/-! The formula of an expression from the formulas of its children. Compilation takes the arguments of
each kind of expression one by one; the children of an expression and its operation are another view of
the same tree. The main statement says that the two views agree: the children compile by themselves,
and the formula is put together from theirs in a way that the operation alone selects, with the form of
an array join as the one addition. -/

namespace SheetFormula

/-- What an array join has besides its children: whether they are one text or a list, and the
separator. -/
inductive ArrayForm where
  | single (separator : String)
  | many (separator : String)

def Expr.arrayForm? : Expr → Option ArrayForm
  | arrayJoinOf _ separator => some (.single separator)
  | arrayJoin _ separator => some (.many separator)
  | _ => none

/-- Whether an expression is shown as a function applied to its children. -/
def Expr.isCall : Expr → Bool
  | text _ | number _ | field _ | join _ | arrayJoin _ _ | arrayJoinOf _ _ | branch _
  | operator _ _ _ => false
  | _ => true

/-- The argument that may be absent. -/
def Expr.optional? : Expr → Option Expr
  | locate _ _ _ start => start
  | substitute _ _ _ index => index
  | _ => none

/-- The arguments that are always there. -/
def Expr.required : Expr → List Expr
  | locate _ needle haystack _ => [needle, haystack]
  | substitute string old new _ => [string, old, new]
  | e => e.children

/-- The formula of a child, and whether the child is compound. -/
structure Part where
  isCompound : Bool
  formula : String

/-- The formula of a child as an operand. -/
def Part.operand (p : Part) : String :=
  if p.isCompound then "(" ++ p.formula ++ ")" else p.formula

/-- The formula that an operation makes of the formulas of the children. -/
def Operation.combine (op : Operation) (form? : Option ArrayForm) (parts : List Part) : String :=
  let formulas := parts.map Part.formula
  match op, form?, parts with
  | .join, _, _ => " & ".intercalate formulas
  | .branch, _, _ => ", ".intercalate formulas
  | .operator o, _, [left, right] => left.operand ++ " " ++ o.token ++ " " ++ right.operand
  | .arrayJoin, some (.single separator), [part] =>
    "ARRAYJOIN(" ++ Json.quote part.formula ++ ", \"" ++ separator ++ "\")"
  | .arrayJoin, some (.many separator), _ =>
    "ARRAYJOIN(" ++ Json.quoteAll formulas ++ ", \"" ++ separator ++ "\")"
  | op, _, _ => op.name ++ "(" ++ ", ".intercalate formulas ++ ")"

theorem Fragment.list_flatMap {α : Type} (f : α → List String) (as : List α)
    (h : ∀ a ∈ as, f a ≠ []) : list (as.map fun a => list (f a)) = list (as.flatMap f) := by
  induction as with
  | nil => rfl
  | cons a as ih =>
      have ha : f a ≠ [] := h a List.mem_cons_self
      have has : ∀ b ∈ as, f b ≠ [] := fun b hb => h b (List.mem_cons_of_mem _ hb)
      cases as with
      | nil => simp [list]
      | cons b bs =>
          have hbs : (b :: bs).flatMap f ≠ [] := by
            simp [has b List.mem_cons_self]
          rw [List.flatMap_cons, list, list, String.intercalate_append_of_ne_nil ha hbs]
          rw [List.map_cons, String.intercalate_cons_of_ne_nil (by simp)]
          exact congrArg _ (ih has)

theorem Branch.formula_eq_list (b : Branch) :
    b.formula = Fragment.list (b.children.map Expr.formula) := by
  cases b with
  | when condition value => rw [formula, Fragment.branch]; rfl
  | otherwise value =>
      rw [formula, Fragment.branch, children, List.map_singleton, Fragment.list,
        String.intercalate_singleton]

namespace Expr

/-- A child as the combination sees it. -/
def part (e : Expr) : Part := ⟨e.isCompound, e.formula⟩

theorem formula_switch (pattern : Expr) (branches : List Branch) :
    (switch pattern branches).formula =
      Fragment.call "SWITCH" ((switch pattern branches).children.map formula) := by
  have hlist : Fragment.list (branches.map Branch.formula) =
      Fragment.list ((branches.flatMap Branch.children).map formula) := by
    rw [List.map_flatMap, ← Fragment.list_flatMap _ _ fun b _ => by cases b <;> simp [Branch.children]]
    exact congrArg Fragment.list (List.map_congr_left fun b _ => b.formula_eq_list)
  rw [formula, branchFormulas_eq_map, Fragment.call, Fragment.call, children, List.map_cons]
  cases branches with
  | nil => rfl
  | cons b bs =>
      have hne : ((b :: bs).flatMap Branch.children).map formula ≠ [] := by
        cases b <;> simp [Branch.children]
      rw [Fragment.list, String.intercalate_cons_of_ne_nil (by simp), Fragment.list,
        String.intercalate_cons_of_ne_nil hne]
      exact congrArg (fun s => "SWITCH(" ++ (pattern.formula ++ ", " ++ s) ++ ")") hlist

theorem formula_call {e : Expr} (h : e.isCall = true) :
    e.formula = Fragment.call e.operation.name (e.children.map formula) := by
  cases e with
  | text | number | field | join | arrayJoin | arrayJoinOf | branch | operator => cases h
  | constant | unary | count | mid | replace | conditional => rfl
  | switch pattern branches => exact formula_switch pattern branches
  | concatenate es | logical _ es =>
      rw [formula, formulas_eq_map]
      rfl
  | locate f needle haystack start => cases start <;> rfl
  | substitute string old new index => cases index <;> rfl

/-- The formula text of an expression that is not a literal is the combination of the formula texts of
its children. -/
theorem formula_eq_combine {e : Expr} (h : e.isLiteral = false) :
    e.formula = e.operation.combine e.arrayForm? (e.children.map part) := by
  have hformulas (es : List Expr) : (es.map part).map Part.formula = es.map formula := by
    rw [List.map_map]
    rfl
  cases e with
  | text | number | field => cases h
  | operator => rfl
  | arrayJoinOf part separator => rfl
  | branch b =>
      rw [formula, Branch.formula_eq_list, ← hformulas]
      rfl
  | join es | arrayJoin es _ =>
      rw [formula, formulas_eq_map, ← hformulas]
      rfl
  | _ =>
      rw [formula_call rfl, ← hformulas]
      rfl

/-- A child of an expression that compiles does so by itself, under the same limit: there it stands no
deeper than below its parent. -/
theorem compile_of_mem_children {e c : Expr} {limit : Nat} {formula : String}
    (h : e.compile limit = .ok formula) (hc : c ∈ e.children) :
    c.compile limit = .ok c.formula := by
  obtain ⟨hfaultless, -⟩ := compile_eq_ok_iff.mp h
  obtain ⟨depth, hsubset⟩ := exists_entries_subset hc 1
  refine compile_eq_ok_iff.mpr ⟨fun x hx => ?_, rfl⟩
  have hlower : x.lower depth ∈ (Subject.expr c).entries (1 + depth) := by
    rw [Subject.entries_add]
    exact List.mem_map_of_mem hx
  obtain ⟨hlevel, hown⟩ := Entry.fault?_eq_none.mp (hfaultless _ (hsubset hlower))
  have hle : x.level ≤ (x.lower depth).level := Nat.le_add_right x.level depth
  exact Entry.fault?_eq_none.mpr ⟨Nat.le_trans hle hlevel, hown⟩

theorem forall₂_compile_children {e : Expr} {limit : Nat} {formula : String}
    (h : e.compile limit = .ok formula) :
    List.Forall₂ (fun c fragment => c.compile limit = .ok fragment) e.children
      (e.children.map Expr.formula) := by
  rw [List.forall₂_map_right_iff, List.forall₂_same]
  exact fun c hc => compile_of_mem_children h hc

theorem children_eq_required_append (e : Expr) : e.children = e.required ++ e.optional?.toList := by
  cases e with
  | locate | substitute => rfl
  | _ => exact (List.append_nil _).symm

/-- Where an expression compiles, so does each of its children, and the formula is the combination of
theirs that the operation selects. An optional argument that is absent is not among the children, so
nothing of it is in the formula. -/
theorem compile_combines_children {e : Expr} {limit : Nat} {formula : String}
    (h : e.compile limit = .ok formula) :
    ∃ fragments : List String,
      List.Forall₂ (fun c fragment => c.compile limit = .ok fragment) e.children fragments ∧
      (e.isLiteral = false → formula = e.operation.combine e.arrayForm?
        (List.zipWith Part.mk (e.children.map isCompound) fragments)) ∧
      e.children = e.required ++ e.optional?.toList := by
  refine ⟨e.children.map Expr.formula, ?_, fun hliteral => ?_, e.children_eq_required_append⟩
  · rw [List.forall₂_map_right_iff, List.forall₂_same]
    exact fun c hc => compile_of_mem_children h hc
  · have hparts : List.zipWith Part.mk (e.children.map isCompound) (e.children.map Expr.formula) =
        e.children.map part := by
      rw [List.zipWith_map, List.zipWith_self]
      rfl
    rw [hparts, ← formula_eq_combine hliteral]
    exact (compile_eq_ok_iff.mp h).2

theorem combines_children_switch :
    let e : Expr := .switch (.locate .find (.text "a") (.field "b c") none)
      [.when (.operator .less (.operator .add (.field "x") (.field "y")) (.constant .blank))
        (.arrayJoin [.text "p", .field "q"] "; "), .otherwise (.arrayJoinOf (.text "p") "; ")]
    let formula := "SWITCH(FIND(\"a\", \x7bb c\x7d), (x + y) < BLANK(), " ++
      "ARRAYJOIN([\"\\\"p\\\"\",\"q\"], \"; \"), ARRAYJOIN(\"\\\"p\\\"\", \"; \"))"
    e.compile 5 = .ok formula ∧ ∃ fragments : List String,
      List.Forall₂ (fun c fragment => c.compile 5 = .ok fragment) e.children fragments ∧
      (e.isLiteral = false → formula = e.operation.combine e.arrayForm?
        (List.zipWith Part.mk (e.children.map isCompound) fragments)) ∧
      e.children = e.required ++ e.optional?.toList :=
  ⟨rfl, compile_combines_children rfl⟩

end Expr

end SheetFormula

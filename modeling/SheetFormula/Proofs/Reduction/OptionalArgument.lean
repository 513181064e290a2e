import SheetFormula.Expr
import SheetFormula.Proofs.Description.Application
import SheetFormula.Proofs.Reduction.Combination
import SheetFormula.Proofs.Reduction.Success

/-! Setting the optional argument. Three ways lead to an expression that has it: the argument is set in an
expression, the expression is built from its required arguments and one more, or its formula is written
and one more argument put before the closing parenthesis. Where an expression takes an optional argument
at all, the three agree, whether or not it had one before. -/

namespace SheetFormula

/-- The operations that take an optional argument after their required ones. -/
def Operation.extensible : List Operation := [locate .find, locate .search, substitute]

theorem Fragment.call_eq_append (name : String) (arguments : List String) :
    call name arguments = (name ++ "(" ++ list arguments) ++ ")" := rfl

theorem Fragment.call_concat (name : String) {arguments : List String} (h : arguments ≠ [])
    (last : String) :
    call name (arguments ++ [last]) = (name ++ "(" ++ list arguments) ++ ", " ++ last ++ ")" := by
  rw [call, list, list, String.intercalate_append_of_ne_nil h (List.cons_ne_nil last []),
    String.intercalate_singleton]
  simp only [String.append_assoc]

namespace Expr

/-- The expression without its optional argument. -/
def withoutOptional : Expr → Expr
  | locate f needle haystack _ => locate f needle haystack none
  | substitute string old new _ => substitute string old new none
  | e => e

variable {e x r : Expr}

theorem withOptional_eq_error_iff {m : Misuse} :
    e.withOptional x = .error m ↔ e.operation ∉ Operation.extensible ∧ m = .noOptional e.operation := by
  cases e with
  | locate f => cases f <;> simp [withOptional, operation, Operation.extensible]
  | _ => simp [withOptional, operation, Operation.extensible, eq_comm]

theorem exists_withOptional_iff :
    (∃ r, e.withOptional x = .ok r) ↔ e.operation ∈ Operation.extensible := by
  cases h : e.withOptional x with
  | ok r =>
      refine iff_of_true ⟨r, rfl⟩ (Decidable.byContradiction fun hop => ?_)
      rw [withOptional_eq_error_iff.mpr ⟨hop, rfl⟩] at h
      cases h
  | error m => exact iff_of_false nofun (withOptional_eq_error_iff.mp h).1

/-- Setting the optional argument leaves nothing of one that was set before. -/
theorem withOptional_withOptional (e x y : Expr) :
    (e.withOptional x >>= fun r => r.withOptional y) = e.withOptional y := by
  cases e <;> rfl

theorem foldlM_withOptional (e : Expr) (before : List Expr) (x : Expr) :
    (before ++ [x]).foldlM withOptional e = e.withOptional x := by
  induction before generalizing e with
  | nil => exact bind_pure (e.withOptional x)
  | cons y before ih =>
      rw [List.cons_append, List.foldlM_cons]
      simp only [ih, withOptional_withOptional]

/-! ### The parts of an expression that takes an optional argument -/

theorem required_of_withoutOptional (h : e.operation ∈ Operation.extensible) :
    e.withoutOptional.operation = e.operation ∧ e.withoutOptional.children = e.required ∧
      e.required ≠ [] := by
  cases e with
  | locate | substitute => exact ⟨rfl, rfl, List.cons_ne_nil _ _⟩
  | _ => simp [operation, Operation.extensible] at h

theorem children_of_withOptional (h : e.withOptional x = .ok r) :
    r.operation = e.operation ∧ r.children = e.required ++ [x] := by
  cases e with
  | locate | substitute =>
      cases h
      exact ⟨rfl, rfl⟩
  | _ => cases h

/-- With and without its optional argument, such an expression is a call and has no fault of its own. -/
theorem isCall_of_extensible (h : e.operation ∈ Operation.extensible) :
    e.isCall = true ∧ e.ownFault? = none ∧ e.operation ≠ .switch := by
  cases e with
  | locate | substitute => exact ⟨rfl, rfl, nofun⟩
  | _ => simp [operation, Operation.extensible] at h

theorem build_extensible {es : List Expr} (h : e.operation ∈ Operation.extensible)
    (hes : e.children = es) : Registry.standard.build e.operation.name es = .ok e := by
  rw [Registry.build_standard_eq_ok_iff, Operation.upper_name]
  cases e with
  | locate | substitute => exact ⟨rfl, rfl, hes, trivial⟩
  | _ => simp [operation, Operation.extensible] at h

/-! ### Compilation -/

section Compile

variable (hop : e.operation ∈ Operation.extensible) {limit : Nat}
include hop

theorem height_concat_le_iff {f : Expr} (hf : f.operation = e.operation)
    (hchildren : f.children = e.children ++ [x]) :
    f.height ≤ limit ↔ e.height ≤ limit ∧ x.height ≤ limit - 1 := by
  have hswitch : e.operation ≠ .switch := (isCall_of_extensible hop).2.2
  cases limit with
  | zero =>
      have hepos := e.height_pos
      have hfpos := f.height_pos
      omega
  | succ limit =>
      rw [height_le_succ_iff_children hswitch, height_le_succ_iff_children (hf ▸ hswitch), hchildren,
        List.forall_mem_append, List.forall_mem_singleton]
      rfl

theorem faultless_concat_iff {f : Expr} (hf : f.operation = e.operation)
    (hchildren : f.children = e.children ++ [x]) : f.Faultless ↔ e.Faultless ∧ x.Faultless := by
  have hown : e.ownFault? = none := (isCall_of_extensible hop).2.1
  have hown' : f.ownFault? = none := (isCall_of_extensible (hf ▸ hop)).2.1
  rw [Faultless, Everywhere.iff_children, hchildren, List.forall_mem_append, List.forall_mem_singleton,
    Faultless, Everywhere.iff_children (e := e), and_iff_right hown', and_iff_right hown, Faultless]

end Compile

/-- An expression with its optional argument compiles if it does without it and the argument compiles one
level below. The formula is then the one without the argument, and the argument's before the closing
parenthesis. -/
theorem compile_withOptional_iff (h : e.withOptional x = .ok r) {limit : Nat} {formula : String} :
    r.compile limit = .ok formula ↔ ∃ front text,
      e.withoutOptional.compile limit = .ok (front ++ ")") ∧ x.compile (limit - 1) = .ok text ∧
      formula = front ++ ", " ++ text ++ ")" := by
  have hop : e.operation ∈ Operation.extensible := exists_withOptional_iff.mp ⟨r, h⟩
  obtain ⟨hr, hchildren⟩ := children_of_withOptional h
  obtain ⟨hrequired, hshort, hne⟩ := required_of_withoutOptional hop
  have hwithout : e.withoutOptional.operation ∈ Operation.extensible := hrequired.symm ▸ hop
  have hsame : r.operation = e.withoutOptional.operation := hr.trans hrequired.symm
  have hconcat : r.children = e.withoutOptional.children ++ [x] := by rw [hchildren, hshort]
  have hfront : e.withoutOptional.formula =
      (e.operation.name ++ "(" ++ Fragment.list (e.required.map Expr.formula)) ++ ")" := by
    rw [formula_call (isCall_of_extensible hwithout).1, hrequired, hshort]
    exact Fragment.call_eq_append _ _
  have hlast : r.formula = (e.operation.name ++ "(" ++ Fragment.list (e.required.map Expr.formula)) ++
      ", " ++ x.formula ++ ")" := by
    rw [formula_call (isCall_of_extensible (hr.symm ▸ hop)).1, hr, hchildren, List.map_append,
      List.map_singleton]
    exact Fragment.call_concat _ (by simpa using hne) _
  simp only [compile_eq_ok_iff_height, height_concat_le_iff hwithout hsame hconcat,
    faultless_concat_iff hwithout hsame hconcat]
  constructor
  · rintro ⟨⟨hheight, hxheight⟩, ⟨hfaultless, hxfaultless⟩, rfl⟩
    exact ⟨_, _, ⟨hheight, hfaultless, hfront.symm⟩, ⟨hxheight, hxfaultless, rfl⟩, hlast⟩
  · rintro ⟨front, text, ⟨hheight, hfaultless, heq⟩, ⟨hxheight, hxfaultless, rfl⟩, rfl⟩
    rw [hfront, String.append_left_inj] at heq
    exact ⟨⟨hheight, hxheight⟩, ⟨hfaultless, hxfaultless⟩, by rw [hlast, heq]⟩

/-- The optional argument of an expression. The operations that take one are named, and for every other
the failure names the operation of the expression. However often the argument is set, the last one
counts. What comes of it has the operation and the required arguments of the expression and the argument
after them, is what the standard registry builds from these, and compiles if the expression does without
its optional argument and the argument does one level below, to the formula of the one with the formula
of the other put before its closing parenthesis. -/
theorem optional_argument_set (e x : Expr) :
    ((∃ r, e.withOptional x = .ok r) ↔ e.operation ∈ Operation.extensible) ∧
    (∀ m, e.withOptional x = .error m ↔
      e.operation ∉ Operation.extensible ∧ m = .noOptional e.operation) ∧
    (Misuse.noOptional e.operation).message =
      "Structural misuse: " ++ (e.operation.name ++ " has no optional argument") ∧
    (∀ before : List Expr, (before ++ [x]).foldlM withOptional e = e.withOptional x) ∧
    ∀ r, e.withOptional x = .ok r →
      r.operation = e.operation ∧ r.children = e.required ++ [x] ∧
      Registry.standard.build e.operation.name (e.required ++ [x]) = .ok r ∧
      Registry.standard.build e.operation.name e.required = .ok e.withoutOptional ∧
      ∀ limit formula, r.compile limit = .ok formula ↔ ∃ front text,
        e.withoutOptional.compile limit = .ok (front ++ ")") ∧ x.compile (limit - 1) = .ok text ∧
        formula = front ++ ", " ++ text ++ ")" := by
  refine ⟨exists_withOptional_iff, fun m => withOptional_eq_error_iff, rfl,
    fun before => e.foldlM_withOptional before x, fun r h => ?_⟩
  have hop : e.operation ∈ Operation.extensible := exists_withOptional_iff.mp ⟨r, h⟩
  obtain ⟨hr, hchildren⟩ := children_of_withOptional h
  obtain ⟨hrequired, hshort, -⟩ := required_of_withoutOptional hop
  have hbuild := build_extensible (hr.symm ▸ hop) hchildren
  have hwithout := build_extensible (hrequired.symm ▸ hop) hshort
  rw [hr] at hbuild
  rw [hrequired] at hwithout
  exact ⟨hr, hchildren, hbuild, hwithout, fun limit formula => compile_withOptional_iff h⟩

end Expr
end SheetFormula

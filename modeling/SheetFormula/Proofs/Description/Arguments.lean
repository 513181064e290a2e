import SheetFormula.Description
import SheetFormula.Proofs.Shape

/-! Expressions as applications of their operations. Where the children of an expression leave
something out, its arguments do not: the separator of an array join is a text among them, and a branch
of a `switch` is one argument and not the two or the one that its children are. So an expression that is
not a literal is known by its operation and its arguments, up to the form of an array join, and they
make its description. -/

namespace SheetFormula

/-- The arguments that an expression is built from, in the order of a signature. -/
def Expr.arguments : Expr → List Expr
  | arrayJoin parts separator => parts ++ [text separator]
  | arrayJoinOf part separator => [part, text separator]
  | switch pattern branches => pattern :: branches.map branch
  | e => e.children

theorem Expr.sizeOf_lt_of_mem_arguments {e a : Expr} (h : a ∈ e.arguments) : sizeOf a < sizeOf e := by
  cases e with
  | arrayJoin parts separator =>
      rcases List.mem_append.mp h with h | h
      · exact sizeOf_lt_of_mem_children (e := arrayJoin parts separator) h
      · rw [List.mem_singleton.mp h]
        have : sizeOf parts ≠ 0 := by cases parts <;> simp
        simp
        omega
  | arrayJoinOf part separator =>
      rcases List.mem_cons.mp h with rfl | h
      · simp
        omega
      · rw [List.mem_singleton.mp h]
        have : sizeOf part ≠ 0 := by cases part <;> simp
        simp
        omega
  | switch pattern branches =>
      rcases List.mem_cons.mp h with rfl | h
      · simp
        omega
      · obtain ⟨b, hb, rfl⟩ := List.mem_map.mp h
        have := List.sizeOf_lt_of_mem hb
        simp
        omega
  | _ => exact sizeOf_lt_of_mem_children h

/-- The description of an expression: a literal as it is, and everything else as a call of its
operation, by name. -/
def Expr.describe : Expr → Description
  | text value => .text value
  | number value => .number value
  | field name => .field name
  | e => .call e.operation.name (e.arguments.attach.map fun a => a.1.describe)
termination_by e => sizeOf e
decreasing_by exact sizeOf_lt_of_mem_arguments a.2

theorem Expr.describe_eq_call {e : Expr} (h : e.isLiteral = false) :
    e.describe = .call e.operation.name (e.arguments.map describe) := by
  have hattach : (e.arguments.attach.map fun a => a.1.describe) = e.arguments.map describe := by
    rw [List.attach_map_val]
  cases e with
  | text | number | field => cases h
  | _ => rw [describe, hattach] <;> nofun

/-! ### Describable expressions -/

/-- Whether a call can make an expression: lists that must not be empty are not, and an array join is
one of a list. -/
def Expr.FitsCall : Expr → Prop
  | join parts | concatenate parts | arrayJoin parts _ | logical _ parts => parts ≠ []
  | switch _ branches => branches ≠ []
  | arrayJoinOf _ _ => False
  | _ => True

/-- Whether calls can make an expression and all that is below it. -/
def Expr.Describable (e : Expr) : Prop := e.Everywhere FitsCall

theorem Expr.describable_iff_children {e : Expr} :
    e.Describable ↔ e.FitsCall ∧ ∀ c ∈ e.children, c.Describable :=
  Everywhere.iff_children

theorem Expr.describable_text (value : String) : (text value).Describable :=
  describable_iff_children.mpr ⟨trivial, nofun⟩

theorem Expr.describable_branch {b : Branch} :
    (branch b).Describable ↔ ∀ c ∈ b.children, c.Describable := by
  rw [describable_iff_children]
  exact and_iff_right trivial

/-- What is below the arguments of an expression is what is below its children, except for the
separator. -/
theorem Expr.describable_iff_arguments {e : Expr} :
    e.Describable ↔ e.FitsCall ∧ ∀ a ∈ e.arguments, a.Describable := by
  rw [describable_iff_children]
  apply and_congr_right
  intro hfits
  cases e with
  | arrayJoinOf => cases hfits
  | arrayJoin parts separator => simp [arguments, children, or_imp, forall_and, describable_text]
  | switch pattern branches =>
      rw [arguments, children, List.forall_mem_cons, List.forall_mem_cons, List.forall_mem_flatMap,
        List.forall_mem_map]
      simp only [describable_branch]
  | _ => rfl

namespace Description

theorem induction {P : Description → Prop} (text : ∀ value, P (.text value))
    (number : ∀ value, P (.number value)) (field : ∀ name, P (.field name))
    (call : ∀ op arguments, (∀ d ∈ arguments, P d) → P (.call op arguments)) (d : Description) : P d :=
  @Description.rec P (fun ds => ∀ d ∈ ds, P d) text number field call nofun
    (fun _ _ h hs => List.forall_mem_cons.mpr ⟨h, hs⟩) d

/-- The description with every name of a function in upper case. -/
def upper : Description → Description
  | text value => .text value
  | number value => .number value
  | field name => .field name
  | call op arguments => .call (Text.upper op) (arguments.map upper)

/-! ### Equality of descriptions -/

mutual

/-- Whether two descriptions are equal, as a computation. -/
def same : Description → Description → Bool
  | text a, text b => a == b
  | number a, number b => a == b
  | field a, field b => a == b
  | call f as, call g bs => f == g && sameAll as bs
  | _, _ => false

def sameAll : List Description → List Description → Bool
  | [], [] => true
  | a :: as, b :: bs => a.same b && sameAll as bs
  | _, _ => false

end

theorem sameAll_eq_true_iff {as bs : List Description}
    (h : ∀ a ∈ as, ∀ b, a.same b = true ↔ a = b) : sameAll as bs = true ↔ as = bs := by
  induction as generalizing bs with
  | nil => cases bs <;> simp [sameAll]
  | cons a as ih =>
      obtain ⟨ha, has⟩ := List.forall_mem_cons.mp h
      cases bs with
      | nil => simp [sameAll]
      | cons b bs => simp [sameAll, ha, ih has]

theorem same_eq_true_iff {a b : Description} : a.same b = true ↔ a = b := by
  induction a using Description.induction generalizing b with
  | text | number | field => cases b <;> simp [same]
  | call f as ih =>
      cases b with
      | call g bs => simp [same, sameAll_eq_true_iff fun a ha b => ih a ha]
      | _ => simp [same]

instance : DecidableEq Description := fun _ _ => decidable_of_iff _ same_eq_true_iff

end Description
end SheetFormula

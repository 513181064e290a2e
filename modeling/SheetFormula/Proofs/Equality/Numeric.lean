import SheetFormula.Expr
import SheetFormula.Proofs.Equality.ZeroSigns

/-! Numeric equality of expressions. Two expressions are equal, numbers compared as numbers, if and only
if they are identical but for the signs of zeros and hold no NaN (`Expr.numEq_iff`). So the relation is
a partial equivalence, reflexive just where there is no NaN, and equal expressions compile alike. -/

namespace SheetFormula

theorem Binary64.numEq_iff {v w : Binary64} :
    v.numEq w = true ↔ v ≠ .nan ∧ v.dropZeroSign = w.dropZeroSign := by
  cases v with
  | finite s a =>
      cases w with
      | finite t b =>
          simp only [numEq, dropZeroSign, Bool.and_eq_true, Bool.or_eq_true, beq_iff_eq, ne_eq,
            reduceCtorEq, not_false_eq_true, true_and, finite.injEq]
          grind
      | _ => simp [numEq, dropZeroSign]
  | _ => cases w <;> simp [numEq, dropZeroSign]

namespace Expr

/-- Whether no number in an expression is a NaN. -/
def NoNan (e : Expr) : Prop := e.Everywhere (· ≠ .number .nan)

theorem noNan_iff_children {e : Expr} :
    e.NoNan ↔ e ≠ .number .nan ∧ ∀ c ∈ e.children, c.NoNan :=
  Everywhere.iff_children

theorem noNan_iff_occurrences {e : Expr} : e.NoNan ↔ .number .nan ∉ e.occurrences := by
  rw [NoNan, Everywhere.iff_occurrences]
  exact ⟨fun h hmem => h _ hmem rfl, fun h c hc heq => h (heq ▸ hc)⟩

/-- Whether the expressions that equal this one are those that differ from it in the signs of zeros at
most; none do if it holds a NaN. -/
def EqualsUpToZeroSigns (a : Expr) : Prop :=
  ∀ b : Expr, a.numEq b = true ↔ a.NoNan ∧ a.dropZeroSigns = b.dropZeroSigns

/-! ### Lists, options and branches -/

theorem allNumEq_iff {as bs : List Expr} (h : ∀ a ∈ as, a.EqualsUpToZeroSigns) :
    allNumEq as bs = true ↔
      (∀ a ∈ as, a.NoNan) ∧ as.map dropZeroSigns = bs.map dropZeroSigns := by
  induction as generalizing bs with
  | nil => cases bs <;> simp [allNumEq]
  | cons a as ih =>
      obtain ⟨ha, has⟩ := List.forall_mem_cons.mp h
      cases bs with
      | nil => simp [allNumEq]
      | cons b bs =>
          rw [allNumEq, Bool.and_eq_true, ha b, ih has]
          simp only [List.forall_mem_cons, List.map_cons, List.cons.injEq]
          exact and_and_and_comm

theorem optionNumEq_iff {a? b? : Option Expr} (h : ∀ a ∈ a?.toList, a.EqualsUpToZeroSigns) :
    optionNumEq a? b? = true ↔
      (∀ a ∈ a?.toList, a.NoNan) ∧ a?.map dropZeroSigns = b?.map dropZeroSigns := by
  cases a? with
  | none => cases b? <;> simp [optionNumEq]
  | some a =>
      cases b? with
      | none => simp [optionNumEq]
      | some b => simp [optionNumEq, h a (List.mem_singleton_self a) b]

theorem branchNumEq_iff {a b : Branch} (h : ∀ c ∈ a.children, c.EqualsUpToZeroSigns) :
    a.numEq b = true ↔
      (∀ c ∈ a.children, c.NoNan) ∧ a.dropZeroSigns = b.dropZeroSigns := by
  cases a with
  | when condition value =>
      simp only [Branch.children, List.forall_mem_cons, List.not_mem_nil, false_imp_iff,
        implies_true, and_true] at h
      cases b with
      | when condition' value' =>
          rw [Branch.numEq, Bool.and_eq_true, h.1 condition', h.2 value']
          simp [Branch.children, Branch.dropZeroSigns]
          exact and_and_and_comm
      | otherwise value' => simp [Branch.numEq, Branch.dropZeroSigns]
  | otherwise value =>
      cases b with
      | when condition' value' => simp [Branch.numEq, Branch.dropZeroSigns]
      | otherwise value' =>
          rw [Branch.numEq, h value (List.mem_singleton_self value) value']
          simp [Branch.children, Branch.dropZeroSigns]

theorem branchesNumEq_iff {as bs : List Branch}
    (h : ∀ c ∈ as.flatMap Branch.children, c.EqualsUpToZeroSigns) :
    branchesNumEq as bs = true ↔ (∀ c ∈ as.flatMap Branch.children, c.NoNan) ∧
      as.map Branch.dropZeroSigns = bs.map Branch.dropZeroSigns := by
  induction as generalizing bs with
  | nil => cases bs <;> simp [branchesNumEq]
  | cons a as ih =>
      rw [List.flatMap_cons, List.forall_mem_append] at h
      cases bs with
      | nil => simp [branchesNumEq]
      | cons b bs =>
          rw [branchesNumEq, Bool.and_eq_true, branchNumEq_iff h.1, ih h.2]
          rw [List.flatMap_cons, List.forall_mem_append, List.map_cons, List.map_cons,
            List.cons.injEq]
          exact and_and_and_comm

/-! ### Expressions -/

theorem operation_eq_of_numEq {a b : Expr} (h : a.numEq b = true) : a.operation = b.operation := by
  rw [numEq.eq_def] at h
  split at h
  all_goals grind [operation]

theorem operation_eq_of_dropZeroSigns_eq {a b : Expr} (h : a.dropZeroSigns = b.dropZeroSigns) :
    a.operation = b.operation := by
  rw [← operation_dropZeroSigns a, h, operation_dropZeroSigns]

theorem equalsUpToZeroSigns (a : Expr) : a.EqualsUpToZeroSigns := by
  induction a using Expr.induction with
  | step a ih =>
      intro b
      by_cases hop : a.operation = b.operation
      · rw [noNan_iff_children]
        cases a with
        | text | field | constant =>
            cases b <;> cases hop
            simp [numEq, dropZeroSigns, children]
        | number v =>
            cases b <;> cases hop
            simp [numEq, dropZeroSigns, children, Binary64.numEq_iff]
        | join as | concatenate as | logical _ as =>
            have hall : ∀ c ∈ as, c.EqualsUpToZeroSigns := ih
            cases b <;> cases hop
            simp [numEq, dropZeroSigns, children, allNumEq_iff hall]
        -- The two forms of an array join share their operation.
        | arrayJoin as _ =>
            have hall : ∀ c ∈ as, c.EqualsUpToZeroSigns := ih
            cases b <;> cases hop <;>
              simp [numEq, dropZeroSigns, children, allNumEq_iff hall, and_assoc]
        | arrayJoinOf part _ =>
            have hpart := ih part (List.mem_singleton_self part)
            cases b <;> cases hop <;>
              simp [numEq, dropZeroSigns, children, hpart _, and_assoc]
        | branch a =>
            have hall : ∀ c ∈ a.children, c.EqualsUpToZeroSigns := ih
            cases b <;> cases hop
            simp [numEq, dropZeroSigns, children, branchNumEq_iff hall]
        | switch pattern as =>
            obtain ⟨hpattern, hall⟩ := List.forall_mem_cons.mp ih
            cases b <;> cases hop
            simp [numEq, dropZeroSigns, children, hpattern _, branchesNumEq_iff hall, and_assoc,
              and_left_comm]
        | locate _ needle haystack start =>
            simp only [children, List.forall_mem_cons] at ih
            obtain ⟨hneedle, hhaystack, hstart⟩ := ih
            cases b <;> cases hop
            simp [numEq, dropZeroSigns, children, hneedle _, hhaystack _, optionNumEq_iff hstart,
              and_assoc, and_left_comm]
        | substitute string old new index =>
            simp only [children, List.forall_mem_cons] at ih
            obtain ⟨hstring, hold, hnew, hindex⟩ := ih
            cases b <;> cases hop
            simp [numEq, dropZeroSigns, children, hstring _, hold _, hnew _, optionNumEq_iff hindex,
              and_assoc, and_left_comm]
        | _ =>
            simp only [children, List.forall_mem_cons, EqualsUpToZeroSigns] at ih
            cases b <;> cases hop
            simp [numEq, dropZeroSigns, children, ih, and_assoc, and_left_comm]
      · exact iff_of_false (fun h => hop (operation_eq_of_numEq h))
          fun h => hop (operation_eq_of_dropZeroSigns_eq h.2)

theorem numEq_iff {a b : Expr} :
    a.numEq b = true ↔ a.NoNan ∧ a.dropZeroSigns = b.dropZeroSigns :=
  a.equalsUpToZeroSigns b

theorem noNan_dropZeroSigns {e : Expr} : e.dropZeroSigns.NoNan ↔ e.NoNan := by
  induction e using Expr.induction with
  | step e ih =>
      have hself : e.dropZeroSigns = .number .nan ↔ e = .number .nan := by
        cases e with
        | number v => cases v <;> simp [dropZeroSigns, Binary64.dropZeroSign]
        | _ => simp [dropZeroSigns]
      rw [noNan_iff_children, noNan_iff_children, children_dropZeroSigns, List.forall_mem_map, Ne,
        hself]
      exact and_congr_right fun _ => forall₂_congr ih

theorem noNan_of_dropZeroSigns_eq {a b : Expr} (h : a.dropZeroSigns = b.dropZeroSigns)
    (ha : a.NoNan) : b.NoNan := by
  rw [← noNan_dropZeroSigns, ← h]
  exact noNan_dropZeroSigns.mpr ha

theorem numEq_symm {a b : Expr} (h : a.numEq b = true) : b.numEq a = true := by
  obtain ⟨ha, heq⟩ := numEq_iff.mp h
  exact numEq_iff.mpr ⟨noNan_of_dropZeroSigns_eq heq ha, heq.symm⟩

theorem numEq_trans {a b c : Expr} (hab : a.numEq b = true) (hbc : b.numEq c = true) :
    a.numEq c = true := by
  obtain ⟨ha, hab⟩ := numEq_iff.mp hab
  exact numEq_iff.mpr ⟨ha, hab.trans (numEq_iff.mp hbc).2⟩

theorem compile_eq_of_dropZeroSigns_eq {a b : Expr} (h : a.dropZeroSigns = b.dropZeroSigns)
    (limit : Nat) : a.compile limit = b.compile limit := by
  rw [← compile_dropZeroSigns, h, compile_dropZeroSigns]

/-- Equal expressions compile alike under every limit, to the same text or with the same error, and so do
expressions that differ in the signs of zeros only. Equality is symmetric and transitive, and an
expression equals itself if and only if there is no NaN in it. -/
theorem equal_expressions_compile_alike :
    (∀ a b : Expr, a.numEq b = true → ∀ limit, a.compile limit = b.compile limit) ∧
    (∀ a b : Expr, a.dropZeroSigns = b.dropZeroSigns →
      ∀ limit, a.compile limit = b.compile limit) ∧
    (∀ a b : Expr, a.numEq b = b.numEq a) ∧
    (∀ a b c : Expr, a.numEq b = true → b.numEq c = true → a.numEq c = true) ∧
    (∀ a : Expr, a.numEq a = true ↔ .number .nan ∉ a.occurrences) := by
  refine ⟨fun a b h => compile_eq_of_dropZeroSigns_eq (numEq_iff.mp h).2,
    fun a b => compile_eq_of_dropZeroSigns_eq, fun a b => ?_, fun a b c => numEq_trans,
    fun a => ?_⟩
  · rw [Bool.eq_iff_iff]
    exact ⟨numEq_symm, numEq_symm⟩
  · rw [numEq_iff, ← noNan_iff_occurrences]
    exact and_iff_left rfl

theorem opposite_zeros_compile_alike :
    let tree (zero : Binary64) : Expr :=
      .switch (.number zero) [.when (.arrayJoin [.number zero, .field "a b"] "-0") (.number zero)]
    tree .zero ≠ tree Binary64.zero.neg ∧ (tree .zero).numEq (tree Binary64.zero.neg) = true ∧
      (tree .zero).compile 4 = .ok "SWITCH(0, ARRAYJOIN([\"0\",\"\x7ba b\x7d\"], \"-0\"), 0)" ∧
      ∀ limit, (tree .zero).compile limit = (tree Binary64.zero.neg).compile limit := by
  intro tree
  have hne : tree .zero ≠ tree Binary64.zero.neg := by
    intro h
    cases h
  have heq : (tree .zero).numEq (tree Binary64.zero.neg) = true := by
    simp [tree, numEq, allNumEq, branchesNumEq, Branch.numEq, Binary64.numEq, Binary64.neg,
      Binary64.zero]
  exact ⟨hne, heq, rfl, equal_expressions_compile_alike.1 _ _ heq⟩

end Expr
end SheetFormula

import Mathlib.Algebra.GroupWithZero.Nat
import Mathlib.Logic.Relation
import SheetFormula.Proofs.Joins.OtherChildren

/-! Joins inside joins. A join that is a part of another one can give way to its parts, anywhere in an
expression: the formula stays the same, since a formula does not bracket the parts of a join, and the
expression becomes no higher. A replacement leaves one join less, so replacements come to an end; and
they keep the expression that is made by flattening all joins at once (`Expr.flatten`), so they end
there, in whatever order they are done. -/

namespace SheetFormula

theorem Fragment.join_join (before : List String) {inner : List String} (after : List String)
    (h : inner ≠ []) : join (before ++ join inner :: after) = join (before ++ inner ++ after) := by
  have hfirst : join (join inner :: after) = join (inner ++ after) := by
    by_cases hafter : after = []
    · rw [hafter, List.append_nil, join, String.intercalate_singleton]
    · rw [join, join, join, String.intercalate_cons_of_ne_nil hafter,
        String.intercalate_append_of_ne_nil h hafter]
  rw [List.append_assoc]
  by_cases hbefore : before = []
  · rw [hbefore, List.nil_append, List.nil_append, hfirst]
  · have hinner : inner ++ after ≠ [] := List.append_ne_nil_of_left_ne_nil h after
    rw [join, String.intercalate_append_of_ne_nil hbefore (List.cons_ne_nil _ _), ← join, ← join, hfirst,
      join, join, join, String.intercalate_append_of_ne_nil hbefore hinner]

namespace Expr

/-- A replacement: a part of a join that is a join itself gives way to its parts, in the expression or
anywhere below it. -/
inductive Merges : Expr → Expr → Prop where
  | here (before inner after : List Expr) :
      Merges (join (before ++ join inner :: after)) (join (before ++ inner ++ after))
  | inside {e c c' : Expr} {before after : List Expr} (children_eq : e.children = before ++ c :: after)
      (merges : Merges c c') : Merges e (e.withChildren (before ++ c' :: after))

/-- The number of joins in an expression. -/
def joins (e : Expr) : Nat := e.occurrences.countP isJoin

/-- Whether no part of an expression, if it is a join, is a join. -/
def HasNoInnerJoin (e : Expr) : Prop := e.isJoin = true → ∀ c ∈ e.children, c.isJoin = false

/-- Whether no join in an expression is a part of another join. -/
def Flat (e : Expr) : Prop := e.Everywhere HasNoInnerJoin

/-- A join of the parts of its parts; any other expression as it is. -/
def mergeParts : Expr → Expr
  | join ps => join (ps.flatMap parts)
  | e => e

/-- The expression with all joins in it flattened, from the inside out. -/
def flatten (e : Expr) : Expr :=
  (e.withChildren (e.children.attach.map fun c => c.1.flatten)).mergeParts
termination_by sizeOf e
decreasing_by exact sizeOf_lt_of_mem_children c.2

theorem flatten_eq (e : Expr) : e.flatten = (e.withChildren (e.children.map flatten)).mergeParts := by
  rw [flatten, List.attach_map_val]

theorem flatten_join (ps : List Expr) : (join ps).flatten = join ((ps.map flatten).flatMap parts) :=
  flatten_eq (join ps)

theorem mergeParts_of_not_isJoin {e : Expr} (h : e.isJoin = false) : e.mergeParts = e := by
  cases e <;> first | rfl | cases h

theorem flatten_of_not_isJoin {e : Expr} (h : e.isJoin = false) :
    e.flatten = e.withChildren (e.children.map flatten) := by
  rw [flatten_eq, mergeParts_of_not_isJoin (by rwa [isJoin_withChildren])]

variable {e e' : Expr}

/-! ### What one replacement keeps -/

/-- A part after a replacement was a part of the outer join or of the inner one. -/
theorem mem_merged {before inner after : List Expr} {p : Expr} (h : p ∈ before ++ inner ++ after) :
    p ∈ (join (before ++ join inner :: after)).children ∨ p ∈ (join inner).children := by
  rw [List.mem_append, List.mem_append, or_right_comm] at h
  exact h.imp_left fun h => List.mem_append.mpr (h.imp_right (List.mem_cons_of_mem _))

namespace Merges

theorem formula_eq (hfaultless : e.Faultless) (h : e.Merges e') :
    e'.formula = e.formula ∧ e'.isCompound = e.isCompound := by
  induction h with
  | here before inner after =>
      have hinner : (join inner).Faultless := hfaultless.of_mem_children (by simp [children])
      have hne : inner.map formula ≠ [] := by
        rw [Ne, List.map_eq_nil_iff]
        rintro rfl
        cases hinner.here
      refine ⟨?_, rfl⟩
      rw [formula, formula, formulas_eq_map, formulas_eq_map, List.map_append, List.map_append,
        List.map_append, List.map_cons, ← Fragment.join_join _ _ hne, formula, formulas_eq_map]
  | @inside e c c' before after children_eq merges ih =>
      have hc : c.Faultless := hfaultless.of_mem_children (by simp [children_eq])
      have hpart : c'.part = c.part := by rw [part, part, (ih hc).1, (ih hc).2]
      refine ⟨formula_withChildren (by simp [children_eq]) ?_, isCompound_withChildren _ _⟩
      simp only [children_eq, List.map_append, List.map_cons, hpart]

theorem faultless (hfaultless : e.Faultless) (h : e.Merges e') : e'.Faultless := by
  induction h with
  | here before inner after =>
      have hinner : (join inner).Faultless := hfaultless.of_mem_children (by simp [children])
      have hparts : ∀ p ∈ before ++ inner ++ after, p.Faultless := fun p hp =>
        (mem_merged hp).elim hfaultless.of_mem_children hinner.of_mem_children
      have hne : inner ≠ [] := by
        rintro rfl
        cases hinner.here
      refine .intro ?_ hparts
      rw [ownFault?_eq_none_iff (by simp [children, hne])]
      exact nofun
  | @inside e c c' before after children_eq merges ih =>
      have hc : c.Faultless := hfaultless.of_mem_children (by simp [children_eq])
      refine faultless_withChildren (by simp [children_eq]) hfaultless ?_
      have hall : ∀ d ∈ before ++ c :: after, d.Faultless := by
        rw [← children_eq]
        exact fun d hd => hfaultless.of_mem_children hd
      rw [List.forall_mem_append, List.forall_mem_cons] at hall ⊢
      exact ⟨hall.1, ih hc, hall.2.2⟩

theorem height_le (h : e.Merges e') : e'.height ≤ e.height := by
  induction h with
  | here before inner after =>
      have hinner : (join inner).height < (join (before ++ join inner :: after)).height :=
        height_lt_of_mem_children (by simp [children])
      obtain ⟨n, hn⟩ := Nat.exists_eq_add_one.mpr (height_pos (join (before ++ join inner :: after)))
      have hop : (join (before ++ inner ++ after)).operation ≠ .switch := nofun
      rw [hn, height_le_succ_iff_children hop]
      intro p hp
      have hlt : p.height < n + 1 := by
        rw [← hn]
        rcases mem_merged hp with hp | hp
        · exact height_lt_of_mem_children hp
        · exact (height_lt_of_mem_children hp).trans hinner
      exact Nat.le_of_lt_succ hlt
  | @inside e c c' before after children_eq merges ih =>
      have hsame (ds : List Expr) : List.Forall₂ (fun c' c => c'.height ≤ c.height) ds ds :=
        List.forall₂_same.mpr fun d _ => Nat.le_refl d.height
      refine height_withChildren_le ?_
      rw [children_eq]
      exact List.rel_append (hsame before) (.cons ih (hsame after))

theorem compile_eq {limit : Nat} {formula : String} (h : e.Merges e')
    (hcompile : e.compile limit = .ok formula) : e'.compile limit = .ok formula := by
  obtain ⟨hheight, hfaultless, rfl⟩ := compile_eq_ok_iff_height.mp hcompile
  exact compile_eq_ok_iff_height.mpr
    ⟨h.height_le.trans hheight, h.faultless hfaultless, (h.formula_eq hfaultless).1.symm⟩

end Merges

/-! ### Replacements come to an end -/

theorem joins_eq (e : Expr) :
    e.joins = (e.children.map joins).sum + if e.isJoin then 1 else 0 := by
  rw [joins, occurrences_eq, List.countP_cons, List.countP_flatMap]
  rfl

theorem joins_join (ps : List Expr) : (join ps).joins = (ps.map joins).sum + 1 := joins_eq (join ps)

/-- A replacement leaves one join less. -/
theorem Merges.joins_eq (h : e.Merges e') : e.joins = e'.joins + 1 := by
  induction h with
  | here before inner after =>
      simp only [joins_join, List.map_append, List.map_cons, List.sum_append, List.sum_cons]
      omega
  | @inside e c c' before after children_eq merges ih =>
      have hchildren : (e.withChildren (before ++ c' :: after)).children = before ++ c' :: after :=
        children_withChildren (by simp [children_eq])
      rw [Expr.joins_eq e, Expr.joins_eq (e.withChildren _), isJoin_withChildren, hchildren, children_eq]
      simp only [List.map_append, List.map_cons, List.sum_append, List.sum_cons]
      omega

theorem length_le_joins {run : List Expr} (h : List.IsChain Merges (e :: run)) :
    run.length ≤ e.joins := by
  induction run generalizing e with
  | nil => exact Nat.zero_le _
  | cons f run ih =>
      obtain ⟨hmerges, hrun⟩ := List.isChain_cons_cons.mp h
      rw [List.length_cons, hmerges.joins_eq]
      exact Nat.succ_le_succ (ih hrun)

/-! ### Flat expressions -/

theorem Flat.of_mem_parts {c : Expr} (h : e.Flat) (hc : c ∈ e.parts) : c.Flat ∧ c.isJoin = false := by
  cases hjoin : e.isJoin with
  | false =>
      rw [parts_of_not_isJoin hjoin, List.mem_singleton] at hc
      exact hc ▸ ⟨h, hjoin⟩
  | true =>
      cases e with
      | join ps => exact ⟨h.of_mem_children hc, h.here rfl c hc⟩
      | _ => cases hjoin

theorem flat_flatten (e : Expr) : e.flatten.Flat := by
  induction e using Expr.induction with
  | step e ih =>
      cases hjoin : e.isJoin with
      | false =>
          have hchildren : (e.withChildren (e.children.map flatten)).children = e.children.map flatten :=
            children_withChildren (List.length_map _)
          rw [flatten_of_not_isJoin hjoin]
          refine .intro (fun h => ?_) fun c hc => ?_
          · rw [isJoin_withChildren, hjoin] at h
            cases h
          · rw [hchildren] at hc
            obtain ⟨d, hd, rfl⟩ := List.mem_map.mp hc
            exact ih d hd
      | true =>
          cases e with
          | join ps =>
              have hparts : ∀ c ∈ (ps.map flatten).flatMap parts, c.Flat ∧ c.isJoin = false := by
                intro c hc
                rw [List.flatMap_map] at hc
                obtain ⟨p, hp, hc⟩ := List.mem_flatMap.mp hc
                exact (ih p hp).of_mem_parts hc
              rw [flatten_join]
              exact .intro (fun _ c hc => (hparts c hc).2) fun c hc => (hparts c hc).1
          | _ => cases hjoin

theorem mergeParts_of_hasNoInnerJoin (h : e.HasNoInnerJoin) : e.mergeParts = e := by
  cases hjoin : e.isJoin with
  | false => exact mergeParts_of_not_isJoin hjoin
  | true =>
      cases e with
      | join ps =>
          have hparts : ps.flatMap parts = ps.flatMap fun p => [p] :=
            List.flatMap_congr fun p hp => parts_of_not_isJoin (h rfl p hp)
          rw [mergeParts, hparts, List.flatMap_singleton']
      | _ => cases hjoin

theorem Flat.flatten_eq (h : e.Flat) : e.flatten = e := by
  induction e using Expr.induction with
  | step e ih =>
      have hchildren : e.children.map flatten = e.children :=
        (List.map_congr_left fun c hc => ih c hc (h.of_mem_children hc)).trans (List.map_id _)
      rw [Expr.flatten_eq, hchildren, withChildren_children, mergeParts_of_hasNoInnerJoin h.here]

/-- Flattening all joins at once makes no difference between an expression before and after a
replacement. -/
theorem Merges.flatten_eq (h : e.Merges e') : e'.flatten = e.flatten := by
  induction h with
  | here before inner after =>
      have hparts (ps : List Expr) : (join ps).parts = ps := rfl
      simp only [flatten_join, List.map_append, List.map_cons, List.flatMap_append, List.flatMap_cons,
        hparts, List.append_assoc]
  | @inside e c c' before after children_eq merges ih =>
      have hlength : (before ++ c' :: after).length = e.children.length := by simp [children_eq]
      rw [Expr.flatten_eq, Expr.flatten_eq e, children_withChildren hlength,
        withChildren_withChildren hlength (List.length_map _), children_eq, List.map_append,
        List.map_append, List.map_cons, List.map_cons, ih]

theorem Flat.not_merges (h : e.Flat) : ¬ e.Merges e' := by
  intro hmerges
  induction hmerges with
  | here before inner after =>
      have hinner : (join inner).isJoin = false := h.here rfl _ (by simp [children])
      cases hinner
  | inside children_eq _ ih => exact ih (h.of_mem_children (by simp [children_eq]))

theorem flat_of_not_merges (h : ∀ f, ¬ e.Merges f) : e.Flat := by
  induction e using Expr.induction with
  | step e ih =>
      refine .intro (fun hjoin c hc => ?_) fun c hc => ih c hc fun c' hmerges => ?_
      · cases e with
        | join ps =>
            cases c with
            | join inner =>
                obtain ⟨before, after, rfl⟩ := List.append_of_mem hc
                exact absurd (.here before inner after) (h _)
            | _ => rfl
        | _ => cases hjoin
      · obtain ⟨before, after, heq⟩ := List.append_of_mem hc
        exact h _ (.inside heq hmerges)

theorem flat_iff_not_merges : e.Flat ↔ ∀ f, ¬ e.Merges f :=
  ⟨fun h _ => h.not_merges, flat_of_not_merges⟩

/-! ### Replacements one after another -/

/-- As long as an expression is not flat there is a replacement to make, and the last one makes the flat
expression. -/
theorem reaches_flatten (e : Expr) : Relation.ReflTransGen Merges e e.flatten := by
  by_cases hflat : e.Flat
  · rw [hflat.flatten_eq]
  · obtain ⟨f, hmerges⟩ : ∃ f, e.Merges f := by
      simpa [flat_iff_not_merges] using hflat
    have hrest := reaches_flatten f
    rw [hmerges.flatten_eq] at hrest
    exact .head hmerges hrest
termination_by e.joins
decreasing_by
  rw [hmerges.joins_eq]
  exact Nat.lt_succ_self _

theorem flatten_eq_of_reaches {f : Expr} (h : Relation.ReflTransGen Merges e f) :
    f.flatten = e.flatten := by
  induction h with
  | refl => rfl
  | tail _ hmerges ih => rw [hmerges.flatten_eq, ih]

theorem compile_eq_of_reaches {f : Expr} {limit : Nat} {formula : String}
    (hcompile : e.compile limit = .ok formula) (h : Relation.ReflTransGen Merges e f) :
    f.compile limit = .ok formula := by
  induction h with
  | refl => exact hcompile
  | tail _ hmerges ih => exact hmerges.compile_eq ih

/-- Replacing joins that are parts of joins by their parts, anywhere and in any order. A run of
replacements is no longer than there are joins. Whatever is reached compiles under the same limit to the
same formula, and from there further replacements lead to the flat expression, which is the one place
where none is left to be made. -/
theorem replacements_end_flat {limit : Nat} {formula : String} (h : e.compile limit = .ok formula) :
    (∀ run : List Expr, List.IsChain Merges (e :: run) → run.length ≤ e.joins) ∧
    e.flatten.Flat ∧
    ∀ f, Relation.ReflTransGen Merges e f →
      f.compile limit = .ok formula ∧ Relation.ReflTransGen Merges f e.flatten ∧
      ((∀ g, ¬ f.Merges g) ↔ f = e.flatten) := by
  refine ⟨fun run => length_le_joins, e.flat_flatten, fun f hreach => ?_⟩
  have hflatten : f.flatten = e.flatten := flatten_eq_of_reaches hreach
  refine ⟨compile_eq_of_reaches h hreach, hflatten ▸ f.reaches_flatten, ?_⟩
  rw [← flat_iff_not_merges]
  constructor
  · intro hflat
    rw [← hflatten, hflat.flatten_eq]
  · rintro rfl
    exact e.flat_flatten

theorem replacements_end_flat_operand :
    let inner : Expr := .join [.field "x y", .join [.number .zero]]
    let e : Expr := .operator .add (.join [.text "p", inner]) (.arrayJoin [.join [inner]] ",")
    let formula := "(\"p\" & \x7bx y\x7d & 0) + (ARRAYJOIN([\"\x7bx y\x7d & 0\"], \",\"))"
    e.compile 6 = .ok formula ∧
      e.flatten = .operator .add (.join [.text "p", .field "x y", .number .zero])
        (.arrayJoin [.join [.field "x y", .number .zero]] ",") ∧
      (∀ run : List Expr, List.IsChain Merges (e :: run) → run.length ≤ e.joins) ∧
      e.flatten.Flat ∧
      ∀ f, Relation.ReflTransGen Merges e f →
        f.compile 6 = .ok formula ∧ Relation.ReflTransGen Merges f e.flatten ∧
        ((∀ g, ¬ f.Merges g) ↔ f = e.flatten) := by
  intro inner e formula
  have h : e.compile 6 = .ok formula := by rfl
  have hflatten : e.flatten = .operator .add (.join [.text "p", .field "x y", .number .zero])
      (.arrayJoin [.join [.field "x y", .number .zero]] ",") := by
    simp [e, inner, flatten_eq, children, withChildren, mergeParts, parts]
  exact ⟨h, hflatten, replacements_end_flat h⟩

end Expr
end SheetFormula

import SheetFormula.Proofs.Reduction.Combination
import SheetFormula.Proofs.Reduction.Success

/-! An expression with other children. All that is no child stays as it is: the operation, the form of an
array join, and which branches of a `switch` have a condition. So the formula changes only with the
formulas of the children, the height only with their heights, and faults only with theirs. -/

namespace SheetFormula

/-- Branches with other parts, taken from a list in the order of a formula. -/
def Branch.refill : List Branch → List Expr → List Branch
  | when _ _ :: bs, condition :: value :: es => when condition value :: refill bs es
  | otherwise _ :: bs, value :: es => otherwise value :: refill bs es
  | _, _ => []

namespace Expr

/-- The expression with the children in a list in the places of its own, which must be as many. -/
def withChildren : Expr → List Expr → Expr
  | join _, es => join es
  | concatenate _, es => concatenate es
  | arrayJoin _ separator, es => arrayJoin es separator
  | arrayJoinOf _ separator, [part] => arrayJoinOf part separator
  | unary f _, [argument] => unary f argument
  | count f _ _, [string, amount] => count f string amount
  | locate f _ _ _, needle :: haystack :: rest => locate f needle haystack rest.head?
  | mid _ _ _, [string, start, length] => mid string start length
  | replace _ _ _ _, [string, start, length, replacement] => replace string start length replacement
  | substitute _ _ _ _, string :: old :: new :: rest => substitute string old new rest.head?
  | logical f _, es => logical f es
  | conditional _ _ _, [condition, whenTrue, whenFalse] => conditional condition whenTrue whenFalse
  | branch (.when _ _), [condition, value] => branch (.when condition value)
  | branch (.otherwise _), [value] => branch (.otherwise value)
  | switch _ branches, pattern :: rest => switch pattern (Branch.refill branches rest)
  | operator o _ _, [left, right] => operator o left right
  | e, _ => e

end Expr

/-! ### Branches -/

namespace Branch

theorem children_refill {bs : List Branch} {es : List Expr}
    (h : es.length = (bs.flatMap children).length) : (refill bs es).flatMap children = es := by
  induction bs generalizing es with
  | nil => exact (List.length_eq_zero_iff.mp h).symm
  | cons b bs ih =>
      cases b with
      | when =>
          match es, h with
          | condition :: value :: es, h =>
              have hrest : (refill bs es).flatMap children = es := ih (Nat.succ.inj (Nat.succ.inj h))
              rw [refill, List.flatMap_cons, hrest]
              rfl
      | otherwise =>
          match es, h with
          | value :: es, h =>
              have hrest : (refill bs es).flatMap children = es := ih (Nat.succ.inj h)
              rw [refill, List.flatMap_cons, hrest]
              rfl

theorem refill_refill {bs : List Branch} {es fs : List Expr}
    (hes : es.length = (bs.flatMap children).length) (hfs : fs.length = es.length) :
    refill (refill bs es) fs = refill bs fs := by
  induction bs generalizing es fs with
  | nil => rfl
  | cons b bs ih =>
      cases b with
      | when =>
          match es, fs, hes, hfs with
          | _ :: _ :: es, _ :: _ :: fs, hes, hfs =>
              have hrest : refill (refill bs es) fs = refill bs fs :=
                ih (Nat.succ.inj (Nat.succ.inj hes)) (Nat.succ.inj (Nat.succ.inj hfs))
              rw [refill, refill, refill, hrest]
      | otherwise =>
          match es, fs, hes, hfs with
          | _ :: es, _ :: fs, hes, hfs =>
              have hrest : refill (refill bs es) fs = refill bs fs :=
                ih (Nat.succ.inj hes) (Nat.succ.inj hfs)
              rw [refill, refill, refill, hrest]

theorem refill_children (bs : List Branch) : refill bs (bs.flatMap children) = bs := by
  induction bs with
  | nil => rfl
  | cons b bs ih =>
      cases b with
      | when condition value => exact congrArg (List.cons (when condition value)) ih
      | otherwise value => exact congrArg (List.cons (otherwise value)) ih

end Branch

/-! ### Expressions -/

namespace Expr

variable {e : Expr} {es fs : List Expr}

@[simp] theorem operation_withChildren (e : Expr) (es : List Expr) :
    (e.withChildren es).operation = e.operation := by
  unfold withChildren
  split <;> rfl

@[simp] theorem arrayForm?_withChildren (e : Expr) (es : List Expr) :
    (e.withChildren es).arrayForm? = e.arrayForm? := by
  unfold withChildren
  split <;> rfl

@[simp] theorem isCompound_withChildren (e : Expr) (es : List Expr) :
    (e.withChildren es).isCompound = e.isCompound := by
  unfold withChildren
  split <;> rfl

@[simp] theorem isLiteral_withChildren (e : Expr) (es : List Expr) :
    (e.withChildren es).isLiteral = e.isLiteral := by
  unfold withChildren
  split <;> rfl

@[simp] theorem isJoin_withChildren (e : Expr) (es : List Expr) :
    (e.withChildren es).isJoin = e.isJoin := by
  unfold withChildren
  split <;> rfl

theorem children_withChildren (h : es.length = e.children.length) :
    (e.withChildren es).children = es := by
  cases e with
  | text | number | field | constant => exact (List.length_eq_zero_iff.mp h).symm
  | join | concatenate | arrayJoin | logical => rfl
  | arrayJoinOf | unary => match es, h with | [_], _ => rfl
  | count | operator => match es, h with | [_, _], _ => rfl
  | mid | conditional => match es, h with | [_, _, _], _ => rfl
  | replace => match es, h with | [_, _, _, _], _ => rfl
  | locate _ _ _ last =>
      cases last with
      | none => match es, h with | [_, _], _ => rfl
      | some => match es, h with | [_, _, _], _ => rfl
  | substitute _ _ _ last =>
      cases last with
      | none => match es, h with | [_, _, _], _ => rfl
      | some => match es, h with | [_, _, _, _], _ => rfl
  | branch b =>
      cases b with
      | when => match es, h with | [_, _], _ => rfl
      | otherwise => match es, h with | [_], _ => rfl
  | switch _ branches =>
      match es, h with
      | pattern :: rest, h =>
          exact congrArg (List.cons pattern) (Branch.children_refill (Nat.succ.inj h))

/-- Of two lists of children in turn, the second one counts. -/
theorem withChildren_withChildren (hes : es.length = e.children.length) (hfs : fs.length = es.length) :
    (e.withChildren es).withChildren fs = e.withChildren fs := by
  cases e with
  | text | number | field | constant | join | concatenate | arrayJoin | logical => rfl
  | arrayJoinOf | unary => match es, fs, hes, hfs with | [_], [_], _, _ => rfl
  | count | operator => match es, fs, hes, hfs with | [_, _], [_, _], _, _ => rfl
  | mid | conditional => match es, fs, hes, hfs with | [_, _, _], [_, _, _], _, _ => rfl
  | replace => match es, fs, hes, hfs with | [_, _, _, _], [_, _, _, _], _, _ => rfl
  | locate => match es, fs, hes, hfs with | _ :: _ :: _, _ :: _ :: _, _, _ => rfl
  | substitute => match es, fs, hes, hfs with | _ :: _ :: _ :: _, _ :: _ :: _ :: _, _, _ => rfl
  | branch b =>
      cases b with
      | when => match es, fs, hes, hfs with | [_, _], [_, _], _, _ => rfl
      | otherwise => match es, fs, hes, hfs with | [_], [_], _, _ => rfl
  | switch _ branches =>
      match es, fs, hes, hfs with
      | _ :: es, pattern :: fs, hes, hfs =>
          have hbranches : Branch.refill (Branch.refill branches es) fs = Branch.refill branches fs :=
            Branch.refill_refill (Nat.succ.inj hes) (Nat.succ.inj hfs)
          exact congrArg (switch pattern) hbranches

theorem withChildren_children (e : Expr) : e.withChildren e.children = e := by
  cases e with
  | locate _ _ _ last | substitute _ _ _ last => cases last <;> rfl
  | branch b => cases b <;> rfl
  | switch pattern branches => exact congrArg (switch pattern) (Branch.refill_children branches)
  | _ => rfl

/-! ### Faults, formulas and heights -/

/-- Of the expressions with children, a `switch` without branches is the one kind with a fault of its
own. -/
theorem ownFault?_eq_none_iff (h : e.children ≠ []) :
    e.ownFault? = none ↔ (e.operation = .switch → e.children.length ≠ 1) := by
  cases e with
  | text | number | field => exact absurd rfl h
  | join parts | concatenate parts | arrayJoin parts _ | logical _ parts =>
      cases parts with
      | nil => exact absurd rfl h
      | cons => exact iff_of_true rfl nofun
  | switch pattern branches =>
      cases branches with
      | nil => exact iff_of_false nofun fun hlength => hlength rfl rfl
      | cons b bs =>
          refine iff_of_true rfl fun _ => ?_
          cases b <;> exact nofun
  | _ => exact iff_of_true rfl nofun

theorem faultless_withChildren (hlength : es.length = e.children.length) (he : e.Faultless)
    (hes : ∀ c ∈ es, c.Faultless) : (e.withChildren es).Faultless := by
  have hchildren := children_withChildren hlength
  refine .intro ?_ (by rwa [hchildren])
  by_cases hnil : e.children = []
  · rw [List.length_eq_zero_iff.mp (hlength.trans (List.length_eq_zero_iff.mpr hnil)), ← hnil,
      withChildren_children]
    exact he.here
  · have hne : (e.withChildren es).children ≠ [] := by
      rw [hchildren, ← List.length_pos_iff, hlength]
      exact List.length_pos_iff.mpr hnil
    rw [ownFault?_eq_none_iff hne, operation_withChildren, hchildren, hlength]
    exact (ownFault?_eq_none_iff hnil).mp he.here

/-- Children that look the same in a formula make the same formula. -/
theorem formula_withChildren (hlength : es.length = e.children.length)
    (hparts : es.map part = e.children.map part) : (e.withChildren es).formula = e.formula := by
  cases hliteral : e.isLiteral with
  | true => cases e <;> first | rfl | cases hliteral
  | false =>
      rw [formula_eq_combine hliteral, formula_eq_combine (by rwa [isLiteral_withChildren]),
        operation_withChildren, arrayForm?_withChildren, children_withChildren hlength, hparts]

theorem height_withChildren_le
    (h : List.Forall₂ (fun c' c => c'.height ≤ c.height) es e.children) :
    (e.withChildren es).height ≤ e.height := by
  obtain ⟨hlength, hget⟩ := List.forall₂_iff_get.mp h
  have hheight := (height_le_iff_children.mp (Nat.le_refl e.height)).2
  refine height_le_iff_children.mpr ⟨e.height_pos, fun i c' hc' => ?_⟩
  rw [children_withChildren hlength] at hc'
  rw [operation_withChildren]
  obtain ⟨hi, rfl⟩ := List.getElem?_eq_some_iff.mp hc'
  have hi' : i < e.children.length := hlength ▸ hi
  exact Nat.le_trans (Nat.add_le_add_right (hget i hi hi') _) (hheight i _ (List.getElem?_eq_getElem hi'))

end Expr
end SheetFormula

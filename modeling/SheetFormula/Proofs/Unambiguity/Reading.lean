import SheetFormula.Proofs.Unambiguity.Primary

/-! Reading formula texts in one way only. An operand is told apart by its parentheses; a part of a join
ends before the sign of the join, which is no operator; and an expression is told apart by its parts.
The induction is on the expression and carries the statement about parts, since a join shows the
operators among its parts without parentheses. -/

namespace SheetFormula
namespace Expr

variable {a b : Expr} {r s : List Char}

/-! ### Operators -/

theorem isPrimary_of_not_isCompound (h : a.isCompound = false) : a.isPrimary = true := by
  cases a <;> first | rfl | cases h

theorem children_of_not_isCompound (h : a.isCompound = false) : a.children = [] := by
  cases a <;> first | rfl | cases h

theorem operandChars_of_not_isCompound (h : a.isCompound = false) : a.operandChars = a.chars := by
  simp [operandChars, h]

theorem told_atom (ha : a.Tidy) (hb : b.Tidy) (hatom : a.isCompound = false)
    (hpb : b.isPrimary = true) : ToldApart EndsPrimary a b := by
  refine told_primary ha hb (isPrimary_of_not_isCompound hatom) hpb fun c hc => ?_
  rw [children_of_not_isCompound hatom] at hc
  cases hc

theorem paren_append_ne_chars (hb : b.Tidy) (hpb : b.isPrimary = true) (t : List Char) :
    '(' :: t ≠ b.chars ++ s := by
  intro h
  obtain ⟨c, rest, hchars, hc⟩ := exists_chars_eq_cons hb hpb
  rw [hchars] at h
  obtain ⟨rfl, -⟩ := List.cons_eq_cons.mp h
  exact opening_ne_paren b hc.symm

/-- An operand is told apart by its parentheses, or as an expression that needs none. -/
theorem told_operand (ha : a.Tidy) (hb : b.Tidy) (ih : a.Told) (hr : EndsPrimary r)
    (hs : EndsPrimary s) (h : a.operandChars ++ r = b.operandChars ++ s) : a.Same b ∧ r = s := by
  have hparen {e : Expr} (he : e.isCompound = true) (t : List Char) :
      e.operandChars ++ t = '(' :: (e.chars ++ ')' :: t) := by
    simp [operandChars, he]
  cases hca : a.isCompound with
  | false =>
      cases hcb : b.isCompound with
      | false =>
          rw [operandChars_of_not_isCompound hca, operandChars_of_not_isCompound hcb] at h
          exact told_atom ha hb hca (isPrimary_of_not_isCompound hcb) r s hr hs h
      | true =>
          rw [operandChars_of_not_isCompound hca, hparen hcb] at h
          exact absurd h.symm (paren_append_ne_chars ha (isPrimary_of_not_isCompound hca) _)
  | true =>
      cases hcb : b.isCompound with
      | false =>
          rw [operandChars_of_not_isCompound hcb, hparen hca] at h
          exact absurd h (paren_append_ne_chars hb (isPrimary_of_not_isCompound hcb) _)
      | true =>
          rw [hparen hca, hparen hcb] at h
          obtain ⟨hsame, hrest⟩ := ih b hb _ _ (.paren r) (.paren s) (List.tail_eq_of_cons_eq h)
          exact ⟨hsame, List.tail_eq_of_cons_eq hrest⟩

theorem space_notMem_token (o : Operator) : ' ' ∉ o.token.toList := by
  cases o <;> decide

theorem token_injective {o o' : Operator} (h : o.token = o'.token) : o = o' := by
  cases o <;> cases o' <;> first | rfl | exact absurd h (by decide)

theorem told_operator {o o' : Operator} {l m l' m' : Expr} (ha : (operator o l m).Tidy)
    (hb : (operator o' l' m').Tidy) (ihl : l.Told) (ihm : m.Told) (hr : EndsPrimary r)
    (hs : EndsPrimary s) (h : (operator o l m).chars ++ r = (operator o' l' m').chars ++ s) :
    (operator o l m).Same (operator o' l' m') ∧ r = s := by
  have hleft {o : Operator} {l m : Expr} (h : (operator o l m).Tidy) : l.Tidy :=
    h.of_mem_children List.mem_cons_self
  have hright {o : Operator} {l m : Expr} (h : (operator o l m).Tidy) : m.Tidy :=
    h.of_mem_children (List.mem_cons_of_mem _ List.mem_cons_self)
  rw [chars_operator, chars_operator] at h
  simp only [List.append_assoc, List.cons_append] at h
  obtain ⟨hl, hrest⟩ := told_operand (hleft ha) (hleft hb) ihl (.space _) (.space _) h
  obtain ⟨htoken, hrest⟩ := closed_append_inj (space_notMem_token o) (space_notMem_token o')
    (List.tail_eq_of_cons_eq hrest)
  obtain ⟨hm, hrs⟩ := told_operand (hright ha) (hright hb) ihm hr hs hrest
  rw [token_injective (String.toList_injective htoken)]
  refine ⟨?_, hrs⟩
  rw [Same, numEq, hl, hm]
  simp

/-- An operator is not a primary expression with something behind it: an operand without parentheses is
followed by a space, and then no part of a join follows. -/
theorem operator_append_ne_chars {o : Operator} {l m : Expr} (ha : (operator o l m).Tidy)
    (hb : b.Tidy) (hpb : b.isPrimary = true) (hs : EndsPart s) :
    (operator o l m).chars ++ r ≠ b.chars ++ s := by
  intro h
  have hl : l.Tidy := ha.of_mem_children List.mem_cons_self
  rw [chars_operator, List.append_assoc] at h
  cases hcompound : l.isCompound with
  | true =>
      rw [operandChars, if_pos hcompound] at h
      exact absurd h (paren_append_ne_chars hb hpb _)
  | false =>
      rw [operandChars_of_not_isCompound hcompound] at h
      obtain ⟨-, hrest⟩ := told_atom hl hb hcompound hpb _ _ (.space _) hs.endsPrimary h
      rcases hs with (_ | _ | _) | t
      · cases hrest
      · cases hrest
      · cases hrest
      · cases o <;> cases hrest

/-! ### Joins -/

theorem operator_or_primary (ha : a.Tidy) (hjoin : a.isJoin = false) :
    (∃ o l m, a = operator o l m) ∨ a.isPrimary = true := by
  cases a with
  | join => cases hjoin
  | branch => cases ha.here.clean
  | operator o l m => exact Or.inl ⟨o, l, m, rfl⟩
  | _ => exact Or.inr rfl

theorem told_part (ha : a.Tidy) (hjoin : a.isJoin = false) (ih : ∀ c ∈ a.children, c.Told) :
    a.ToldPart := by
  intro b hb hjoin' r s hr hs h
  rcases operator_or_primary ha hjoin with ⟨o, l, m, rfl⟩ | hpa
  · have ihl : l.Told := ih l List.mem_cons_self
    have ihm : m.Told := ih m (List.mem_cons_of_mem _ List.mem_cons_self)
    rcases operator_or_primary hb hjoin' with ⟨o', l', m', rfl⟩ | hpb
    · exact told_operator ha hb ihl ihm hr.endsPrimary hs.endsPrimary h
    · exact absurd h (operator_append_ne_chars ha hb hpb hs)
  · rcases operator_or_primary hb hjoin' with ⟨o', l', m', rfl⟩ | hpb
    · exact absurd h.symm (operator_append_ne_chars hb ha hpa hr)
    · exact told_primary ha hb hpa hpb ih r s hr.endsPrimary hs.endsPrimary h

theorem chars_eq_parts (e : Expr) : e.chars = [' ', '&', ' '].intercalate (e.parts.map chars) := by
  cases e with
  | join parts => exact chars_join parts
  | _ => exact List.intercalate_singleton.symm

theorem parts_ne_nil (ha : a.Tidy) : a.parts ≠ [] := by
  cases a with
  | join parts =>
      have hlength : 2 ≤ parts.length := ha.here.clean.1
      rintro rfl
      cases hlength
  | _ => exact List.cons_ne_nil _ _

theorem tidy_of_mem_parts (ha : a.Tidy) {p : Expr} (hp : p ∈ a.parts) :
    p.Tidy ∧ p.isJoin = false := by
  cases hjoin : a.isJoin with
  | false =>
      rw [parts_of_not_isJoin hjoin, List.mem_singleton] at hp
      exact hp ▸ ⟨ha, hjoin⟩
  | true =>
      cases a with
      | join parts => exact ⟨ha.of_mem_children hp, ha.here.clean.2 p hp⟩
      | _ => cases hjoin

theorem same_of_parts (ha : a.Tidy) (hb : b.Tidy) (h : List.Forall₂ Same a.parts b.parts) :
    a.Same b := by
  have hlength := h.length_eq
  cases hja : a.isJoin with
  | false =>
      cases hjb : b.isJoin with
      | false =>
          rw [parts_of_not_isJoin hja, parts_of_not_isJoin hjb] at h
          exact (List.forall₂_cons.mp h).1
      | true =>
          cases b with
          | join bs =>
              have htwo : 2 ≤ bs.length := hb.here.clean.1
              rw [parts_of_not_isJoin hja, List.length_singleton, parts] at hlength
              omega
          | _ => cases hjb
  | true =>
      cases a with
      | join as =>
          have htwo : 2 ≤ as.length := ha.here.clean.1
          cases b with
          | join bs =>
              rw [Same, numEq]
              exact allNumEq_of_forall₂ h
          | _ =>
              rw [parts, parts_of_not_isJoin rfl, List.length_singleton] at hlength
              omega
      | _ => cases hja

theorem told_of_parts (ha : a.Tidy) (hparts : ∀ p ∈ a.parts, p.ToldPart) : a.Told := by
  intro b hb r s hr hs h
  rw [chars_eq_parts a, chars_eq_parts b] at h
  obtain ⟨hall, hrs⟩ := separated_append_inj EndsPart Ends (fun t => .next t) (fun t => .whole)
    (fun t => not_ends_space _)
    (fun x hx y hy r s hr hs heq =>
      hparts x hx y (tidy_of_mem_parts hb hy).1 (tidy_of_mem_parts hb hy).2 r s hr hs heq)
    (parts_ne_nil ha) (parts_ne_nil hb) hr hs h
  exact ⟨same_of_parts ha hb hall, hrs⟩

theorem toldPart_of_mem_parts (ha : a.Tidy) : ∀ p ∈ a.parts, p.ToldPart := by
  induction a using Expr.induction with
  | step a ih =>
      intro p hp
      cases hjoin : a.isJoin with
      | false =>
          rw [parts_of_not_isJoin hjoin, List.mem_singleton] at hp
          subst hp
          refine told_part ha hjoin fun c hc => ?_
          have hc' := ha.of_mem_children hc
          exact told_of_parts hc' (ih c hc hc')
      | true =>
          cases a with
          | join parts =>
              obtain ⟨htidy, hpart⟩ := tidy_of_mem_parts ha hp
              exact ih p hp htidy p (by rw [parts_of_not_isJoin hpart]; exact List.mem_cons_self)
          | _ => cases hjoin

/-- Clean expressions that compile to the same text are the same, numbers compared as numbers. -/
theorem numEq_of_compile_eq {a b : Expr} {limit limit' : Nat} {formula : String} (ha : a.Clean)
    (hb : b.Clean) (hfa : a.compile limit = .ok formula) (hfb : b.compile limit' = .ok formula) :
    a.numEq b = true := by
  have hta := ha.tidy hfa
  have htb := hb.tidy hfb
  have hchars : a.chars ++ [] = b.chars ++ [] := by
    rw [chars, chars, ← (compile_eq_ok_iff.mp hfa).2, ← (compile_eq_ok_iff.mp hfb).2]
  exact (told_of_parts hta (toldPart_of_mem_parts hta) b htb [] [] .nil .nil hchars).1

theorem numEq_zeros_of_compile_eq :
    ∃ a b : Expr, a ≠ b ∧ a.Clean ∧ b.Clean ∧ a.compile 3 = .ok "(\"p\" & \x7by z\x7d) + 0" ∧
      b.compile 4 = .ok "(\"p\" & \x7by z\x7d) + 0" ∧ a.numEq b = true := by
  let tree (zero : Binary64) : Expr :=
    .operator .add (.join [.text "p", .field "y z"]) (.number zero)
  have hclean (zero : Binary64) : (tree zero).Clean := by
    have htext : (text "p").Clean := .intro (show '"' ∉ "p".toList by decide) nofun
    have hfield : (field "y z").Clean := .intro (Or.inr (by decide)) nofun
    have hjoin : (join [text "p", field "y z"]).Clean :=
      .intro ⟨Nat.le_refl 2, by decide⟩
        (List.forall_mem_cons.mpr ⟨htext, List.forall_mem_singleton.mpr hfield⟩)
    have hnumber : (number zero).Clean := .intro trivial nofun
    exact .intro trivial (List.forall_mem_cons.mpr ⟨hjoin, List.forall_mem_singleton.mpr hnumber⟩)
  have ha : (tree .zero).compile 3 = .ok "(\"p\" & \x7by z\x7d) + 0" := by rfl
  have hb : (tree Binary64.zero.neg).compile 4 = .ok "(\"p\" & \x7by z\x7d) + 0" := by rfl
  have hne : tree .zero ≠ tree Binary64.zero.neg := by
    intro h
    cases h
  exact ⟨_, _, hne, hclean _, hclean _, ha, hb, numEq_of_compile_eq (hclean _) (hclean _) ha hb⟩

end Expr
end SheetFormula

import SheetFormula.Proofs.Json.Spelling
import SheetFormula.Proofs.Reduction.Combination
import SheetFormula.Proofs.Unambiguity.Pieces

/-! What the formula of an array join shows. The array is a JSON value, and whatever follows it the reader
finds its end; so the array, and the separator behind it, can be told from the formula alone, though
nothing in the separator is escaped. -/

namespace SheetFormula

def ArrayForm.separator : ArrayForm → String
  | single separator | many separator => separator

/-- The value of the array of an array join, and its JSON text. -/
inductive ArrayForm.Shows : ArrayForm → List String → Json → String → Prop where
  | single {separator fragment : String} :
      Shows (.single separator) [fragment] (.string fragment) (Json.quote fragment)
  | many {separator : String} {fragments : List String} :
      Shows (.many separator) fragments (.array (fragments.map .string)) (Json.quoteAll fragments)

namespace Json

theorem spelled_quotedChars (s : String) : (string s).Spelled (quotedChars s.toList) :=
  .text (spelledText_quotedChars s)

theorem spelledItems_quotedChars {s : String} {ss : List String} :
    SpelledItems ((s :: ss).map string)
      ([','].intercalate ((s :: ss).map fun s => quotedChars s.toList) ++ [']']) := by
  induction ss generalizing s with
  | nil => simpa using SpelledItems.last (spelled_quotedChars s)
  | cons t ss ih => simpa using SpelledItems.cons (spelled_quotedChars s) ih

theorem spelled_quoteAll (ss : List String) :
    (array (ss.map string)).Spelled (quoteAll ss).toList := by
  rw [toList_quoteAll]
  cases ss with
  | nil => exact @Spelled.emptyArray [] nofun
  | cons s ss => exact .array spelledItems_quotedChars

theorem not_control_quotedChars (t : List Char) : ∀ c ∈ quotedChars t, ¬ c < ' ' := by
  rw [quotedChars, List.forall_mem_cons, List.forall_mem_append]
  exact ⟨by decide, (spelledChars_flatMap t).not_control, List.forall_mem_singleton.mpr (by decide)⟩

theorem not_control_quoteAll (ss : List String) : ∀ c ∈ (quoteAll ss).toList, ¬ c < ' ' := by
  have hitems : ∀ c ∈ [','].intercalate (ss.map fun s => quotedChars s.toList), ¬ c < ' ' :=
    intercalate_of_append (P := fun cs => ∀ c ∈ cs, ¬ c < ' ') nofun
      (fun _ _ h h' => List.forall_mem_append.mpr ⟨h, h'⟩) (List.forall_mem_singleton.mpr (by decide))
      (List.forall_mem_map.mpr fun s _ => not_control_quotedChars s.toList)
  rw [toList_quoteAll, List.forall_mem_cons, List.forall_mem_append]
  exact ⟨by decide, hitems, List.forall_mem_singleton.mpr (by decide)⟩

end Json

namespace ArrayForm.Shows

variable {form form' : ArrayForm} {fragments fragments' : List String} {v v' : Json} {array array' : String}

theorem spelled (h : form.Shows fragments v array) : v.Spelled array.toList := by
  cases h with
  | single =>
      rw [Json.quote, String.toList_ofList]
      exact Json.spelled_quotedChars _
  | many => exact Json.spelled_quoteAll _

theorem within (h : form.Shows fragments v array) : v.Within Json.nestingLimit := by
  cases h with
  | single => exact .string
  | many => exact .array (List.forall_mem_map.mpr fun _ _ => .string)

theorem not_control (h : form.Shows fragments v array) : ∀ c ∈ array.toList, ¬ c < ' ' := by
  cases h with
  | single =>
      rw [Json.quote, String.toList_ofList]
      exact Json.not_control_quotedChars _
  | many => exact Json.not_control_quoteAll _

/-- The value shows everything but the separator. -/
theorem eq_of_value (h : form.Shows fragments v array) (h' : form'.Shows fragments' v array') :
    (form = form' ↔ form.separator = form'.separator) ∧ fragments = fragments' ∧ array = array' := by
  cases h with
  | single =>
      cases h'
      exact ⟨by simp [separator], rfl, rfl⟩
  | many =>
      generalize hv : Json.array _ = v at h'
      cases h' with
      | single => cases hv
      | many =>
          have hstrings := List.map_injective_iff.mpr (fun _ _ => Json.string.inj) (Json.array.inj hv)
          subst hstrings
          exact ⟨by simp [separator], rfl, rfl⟩

theorem array_eq (h : form.Shows fragments v array) (h' : form.Shows fragments v' array') :
    array = array' := by
  cases h <;> cases h' <;> rfl

end ArrayForm.Shows

namespace Expr

theorem exists_shows {e : Expr} {form : ArrayForm} (h : e.arrayForm? = some form) :
    ∃ v array, form.Shows (e.children.map Expr.formula) v array ∧
      e.formula = "ARRAYJOIN(" ++ array ++ ", \"" ++ form.separator ++ "\")" := by
  cases e with
  | arrayJoinOf part separator =>
      cases h
      exact ⟨_, _, .single, rfl⟩
  | arrayJoin parts separator =>
      cases h
      refine ⟨_, _, .many, ?_⟩
      rw [formula, formulas_eq_map]
      rfl
  | _ => cases h

/-- The formula of an array join behind the name, with the end of the separator. -/
theorem toList_of_shows {formula array : String} {form : ArrayForm}
    (h : formula = "ARRAYJOIN(" ++ array ++ ", \"" ++ form.separator ++ "\")") :
    formula.toList = "ARRAYJOIN(".toList ++
      (array.toList ++ ',' :: ' ' :: '"' :: (form.separator.toList ++ ['"', ')'])) := by
  simp [h]

/-- An array join can be told from its formula, up to the formulas of its parts: two that compile have the
same formula if and only if both are of one text or both of a list, and the formulas of their parts and
their separators are the same. In the formula the array is a JSON value without control characters,
and the value is the formula of the one part or the list of the formulas of all. -/
theorem array_join_loses_nothing {a b : Expr} {form form' : ArrayForm} {limit limit' : Nat}
    {formula formula' : String} (ha : a.arrayForm? = some form) (hb : b.arrayForm? = some form')
    (h : a.compile limit = .ok formula) (h' : b.compile limit' = .ok formula') :
    ∃ fragments fragments' : List String,
      List.Forall₂ (fun c fragment => c.compile limit = .ok fragment) a.children fragments ∧
      List.Forall₂ (fun c fragment => c.compile limit' = .ok fragment) b.children fragments' ∧
      (formula = formula' ↔ form = form' ∧ fragments = fragments') ∧
      ∃ v array, form.Shows fragments v array ∧
        formula = "ARRAYJOIN(" ++ array ++ ", \"" ++ form.separator ++ "\")" ∧
        Json.read array.toList = .ok (v, []) ∧ ∀ c ∈ array.toList, ¬ c < ' ' := by
  obtain ⟨v, array, hshows, hformula⟩ := exists_shows ha
  obtain ⟨v', array', hshows', hformula'⟩ := exists_shows hb
  rw [← (compile_eq_ok_iff.mp h).2] at hformula
  rw [← (compile_eq_ok_iff.mp h').2] at hformula'
  refine ⟨_, _, forall₂_compile_children h, forall₂_compile_children h', ⟨fun heq => ?_, ?_⟩, v, array, hshows, hformula,
    Json.read_of_spelled hshows.spelled hshows.within, hshows.not_control⟩
  · have htexts := List.append_cancel_left
      ((toList_of_shows hformula).symm.trans ((congrArg String.toList heq).trans (toList_of_shows hformula')))
    -- The reader finds the end of the array in both texts, so it reads the same value.
    have hrun {v : Json} {array : String} {form : ArrayForm} {fragments : List String}
        (h : form.Shows fragments v array) (rest : List Char) :
        (Json.State.value []).run (Json.scan 0 (array.toList ++ ',' :: rest)) =
          .ok (v, Json.scan 0 (',' :: rest)) :=
      Json.run_of_spelled h.spelled h.within (stopsBefore_cons.mpr rfl)
    have hvalues := (hrun hshows _).symm.trans ((congrArg _ (congrArg _ htexts)).trans (hrun hshows' _))
    obtain rfl : v = v' := congrArg Prod.fst (Except.ok.inj hvalues)
    obtain ⟨hform, hfragments, rfl⟩ := hshows.eq_of_value hshows'
    have hseparators := List.append_cancel_left htexts
    simp only [List.cons.injEq, true_and] at hseparators
    exact ⟨hform.mpr (String.toList_injective (List.append_cancel_right hseparators)), hfragments⟩
  · rintro ⟨rfl, hfragments⟩
    rw [hfragments] at hshows
    rw [hformula, hformula', hshows.array_eq hshows']

/-- A part that is an array join itself, and separators that look like the end of the array. -/
theorem array_join_loses_nothing_nested :
    let part : Expr := .arrayJoinOf (.text "é\\\n") "\""
    let a : Expr := .arrayJoin [part] "\"]"
    let b : Expr := .arrayJoinOf part "\"]"
    let formula := "ARRAYJOIN([\"ARRAYJOIN(\\\"\\\\\\\"é\\\\\\\\\\\\n\\\\\\\"\\\", \\\"\\\"\\\")\"], \"\"]\")"
    let formula' := "ARRAYJOIN(\"ARRAYJOIN(\\\"\\\\\\\"é\\\\\\\\\\\\n\\\\\\\"\\\", \\\"\\\"\\\")\", \"\"]\")"
    a.arrayForm? = some (.many "\"]") ∧ b.arrayForm? = some (.single "\"]") ∧
      a.compile 3 = .ok formula ∧ b.compile 4 = .ok formula' ∧ ∃ fragments fragments' : List String,
      List.Forall₂ (fun c fragment => c.compile 3 = .ok fragment) a.children fragments ∧
      List.Forall₂ (fun c fragment => c.compile 4 = .ok fragment) b.children fragments' ∧
      (formula = formula' ↔ ArrayForm.many "\"]" = .single "\"]" ∧ fragments = fragments') ∧
      ∃ v array, (ArrayForm.many "\"]").Shows fragments v array ∧
        formula = "ARRAYJOIN(" ++ array ++ ", \"" ++ "\"]" ++ "\")" ∧
        Json.read array.toList = .ok (v, []) ∧ ∀ c ∈ array.toList, ¬ c < ' ' :=
  ⟨rfl, rfl, rfl, rfl, array_join_loses_nothing rfl rfl rfl rfl⟩

end Expr

end SheetFormula

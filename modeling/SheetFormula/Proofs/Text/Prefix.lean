import Mathlib.Data.List.Forall2

/-! Where a piece of a text ends. Two equal texts that begin with pieces of one kind begin with the same
piece if the kind says where such a piece ends: with the first character outside a class, or where the
separators of a list stop. -/

namespace SheetFormula

/-- Whether a text does not begin with a character of the class. -/
def StopsBefore (p : Char → Bool) (r : List Char) : Prop := ∀ c ∈ r.head?, p c = false

theorem stopsBefore_cons {p : Char → Bool} {c : Char} {r : List Char} :
    StopsBefore p (c :: r) ↔ p c = false := by
  simp [StopsBefore]

theorem StopsBefore.takeWhile_eq {p : Char → Bool} {r : List Char} (h : StopsBefore p r) :
    r.takeWhile p = [] := by
  cases r with
  | nil => rfl
  | cons c r => rw [List.takeWhile_cons_of_neg (by simpa using stopsBefore_cons.mp h)]

theorem StopsBefore.dropWhile_eq {p : Char → Bool} {r : List Char} (h : StopsBefore p r) :
    r.dropWhile p = r := by
  cases r with
  | nil => rfl
  | cons c r => rw [List.dropWhile_cons_of_neg (by simpa using stopsBefore_cons.mp h)]

/-- A run of characters of a class is as long as it can be. -/
theorem run_append_inj {p : Char → Bool} {v w r s : List Char} (hv : ∀ c ∈ v, p c = true)
    (hw : ∀ c ∈ w, p c = true) (hr : StopsBefore p r) (hs : StopsBefore p s)
    (h : v ++ r = w ++ s) : v = w ∧ r = s := by
  have htake (v r : List Char) (hv : ∀ c ∈ v, p c = true) (hr : StopsBefore p r) :
      (v ++ r).takeWhile p = v := by
    rw [List.takeWhile_append_of_pos hv]
    cases r with
    | nil => simp
    | cons c r => simp [stopsBefore_cons.mp hr]
  have hvw : v = w := by rw [← htake v r hv hr, h, htake w s hw hs]
  subst hvw
  exact ⟨rfl, List.append_cancel_left h⟩

/-- A text up to a closing mark ends at the first one. -/
theorem closed_append_inj {q : Char} {v w r s : List Char} (hv : q ∉ v) (hw : q ∉ w)
    (h : v ++ q :: r = w ++ q :: s) : v = w ∧ r = s := by
  have hne {v : List Char} (hv : q ∉ v) : ∀ c ∈ v, (c != q) = true := by
    intro c hc
    exact bne_iff_ne.mpr (ne_of_mem_of_not_mem hc hv)
  have hstop (r : List Char) : StopsBefore (· != q) (q :: r) := stopsBefore_cons.mpr (by simp)
  obtain ⟨hvw, hrs⟩ := run_append_inj (hne hv) (hne hw) (hstop r) (hstop s) h
  exact ⟨hvw, List.tail_eq_of_cons_eq hrs⟩

section Separated

variable {α : Type} {encode : α → List Char} {R : α → α → Prop} {separator : List Char}

/-- What follows the first element of a list. -/
def afterFirst (separator : List Char) (encode : α → List Char) (as : List α) (r : List Char) :
    List Char :=
  if as.isEmpty then r else separator ++ (separator.intercalate (as.map encode) ++ r)

theorem intercalate_cons_append (a : α) (as : List α) (r : List Char) :
    separator.intercalate ((a :: as).map encode) ++ r =
      encode a ++ afterFirst separator encode as r := by
  cases as with
  | nil => simp [afterFirst]
  | cons b as => simp [afterFirst]

/-- What holds of the separator and of each text, and passes on to longer texts, holds of the whole. -/
theorem intercalate_of_append {P : List Char → Prop} (hnil : P [])
    (happend : ∀ cs ds, P cs → P ds → P (cs ++ ds)) (hseparator : P separator)
    {texts : List (List Char)} (h : ∀ cs ∈ texts, P cs) : P (separator.intercalate texts) := by
  induction texts with
  | nil => simpa using hnil
  | cons cs texts ih =>
      obtain ⟨hcs, htexts⟩ := List.forall_mem_cons.mp h
      cases texts with
      | nil => simpa using hcs
      | cons ds texts =>
          rw [List.intercalate_cons_of_ne_nil (by simp)]
          exact happend _ _ (happend _ _ hcs hseparator) (ih htexts)

/-- A list with separators ends where no separator follows. It is enough that the elements can be told
apart with a separator or the end of the list behind them. -/
theorem separated_append_inj (next stop : List Char → Prop) {as bs : List α} {r s : List Char}
    (hseparator : ∀ t, next (separator ++ t)) (hstop : ∀ t, stop t → next t)
    (hdisjoint : ∀ t, ¬ stop (separator ++ t))
    (helement : ∀ a ∈ as, ∀ b ∈ bs, ∀ r s, next r → next s →
      encode a ++ r = encode b ++ s → R a b ∧ r = s)
    (has : as ≠ []) (hbs : bs ≠ []) (hr : stop r) (hs : stop s)
    (h : separator.intercalate (as.map encode) ++ r = separator.intercalate (bs.map encode) ++ s) :
    List.Forall₂ R as bs ∧ r = s := by
  have hnext (cs : List α) (t : List Char) (ht : stop t) : next (afterFirst separator encode cs t) := by
    cases cs with
    | nil => exact hstop t ht
    | cons c cs => exact hseparator _
  induction as generalizing bs with
  | nil => exact absurd rfl has
  | cons a as ih =>
      cases bs with
      | nil => exact absurd rfl hbs
      | cons b bs =>
          rw [intercalate_cons_append, intercalate_cons_append] at h
          obtain ⟨hab, hrest⟩ := helement a List.mem_cons_self b List.mem_cons_self _ _
            (hnext as r hr) (hnext bs s hs) h
          cases as with
          | nil =>
              cases bs with
              | nil => exact ⟨.cons hab .nil, hrest⟩
              | cons b' bs =>
                  have hr' : r = separator ++ _ := hrest
                  exact absurd (hr' ▸ hr) (hdisjoint _)
          | cons a' as =>
              cases bs with
              | nil =>
                  have hs' : separator ++ _ = s := hrest
                  exact absurd (hs' ▸ hs) (hdisjoint _)
              | cons b' bs =>
                  have hlists := List.append_cancel_left (show separator ++ _ = separator ++ _ from hrest)
                  have helement' : ∀ c ∈ a' :: as, ∀ d ∈ b' :: bs, ∀ r s, next r → next s →
                      encode c ++ r = encode d ++ s → R c d ∧ r = s := fun c hc d hd =>
                    helement c (List.mem_cons_of_mem _ hc) d (List.mem_cons_of_mem _ hd)
                  obtain ⟨hall, hrs⟩ := ih helement' (by simp) (by simp) hlists
                  exact ⟨.cons hab hall, hrs⟩

end Separated

end SheetFormula

import SheetFormula.Proofs.Text.Interval
import SheetFormula.Proofs.Text.Prefix

/-! The texts of numbers. The text of a decimal numeral shows its sign, the digits before and behind the
point and how many there are behind it, and so its value; the value of the shortest decimal leads back
to the rank. So two finite numbers with the same text are equal, if the two zeros are. -/

namespace SheetFormula
namespace Decimal

/-! ### The digits of a numeral -/

theorem isDigit_of_mem_digitChars {n : Nat} {c : Char} (h : c ∈ digitChars n) : c.isDigit = true :=
  Nat.isDigit_of_mem_toDigits (by decide) (by decide) h

theorem point_notMem_of_isDigit {cs : List Char} (h : ∀ c ∈ cs, c.isDigit = true) : '.' ∉ cs := by
  intro hpoint
  cases h '.' hpoint

/-- Only the numeral of zero begins with a zero. -/
theorem exists_digitChars_eq_cons {n : Nat} (h : 0 < n) :
    ∃ c rest, digitChars n = c :: rest ∧ c ≠ '0' := by
  induction n using Nat.strong_induction_on with
  | _ n ih =>
      rcases Nat.lt_or_ge n 10 with hlt | hge
      · refine ⟨n.digitChar, [], Nat.toDigits_of_lt_base hlt, ?_⟩
        have hall : ∀ n < 10, 0 < n → n.digitChar ≠ '0' := by decide
        exact hall n hlt h
      · obtain ⟨c, rest, hcons, hc⟩ := ih (n / 10) (by omega) (by omega)
        refine ⟨c, rest ++ [(n % 10).digitChar], ?_, hc⟩
        rw [digitChars, Nat.toDigits_of_base_le (by decide) hge, ← digitChars, hcons, List.cons_append]

/-- The number that digits are read as. -/
def read (cs : List Char) : Nat := Nat.ofDigitChars 10 cs 0

theorem read_digitChars (n : Nat) : read (digitChars n) = n := Nat.ofDigitChars_ten_toDigits

theorem read_append_zeros (cs : List Char) (n : Nat) :
    read (cs ++ List.replicate n '0') = read cs * 10 ^ n := by
  rw [read, Nat.ofDigitChars_append, Nat.ofDigitChars_replicate_zero, Nat.mul_comm, read]

theorem read_zeros_append (n : Nat) (cs : List Char) :
    read (List.replicate n '0' ++ cs) = read cs := by
  rw [read, Nat.ofDigitChars_append, Nat.ofDigitChars_replicate_zero, Nat.mul_zero, read]

/-- A point stands between the digits so that the given number of them is behind it. -/
theorem exists_withPoint_eq {cs : List Char} (h : ∀ c ∈ cs, c.isDigit = true) (places : Nat) :
    ∃ front back, withPoint cs places = front ++ '.' :: back ∧ back.length = places ∧
      read (front ++ back) = read cs ∧ ∀ c ∈ front ++ back, c.isDigit = true := by
  rw [withPoint]
  split
  next hlt =>
    refine ⟨cs.take (cs.length - places), cs.drop (cs.length - places), rfl, ?_, ?_, ?_⟩
    · rw [List.length_drop]
      omega
    · rw [List.take_append_drop]
    · rwa [List.take_append_drop]
  next hle =>
    refine ⟨['0'], List.replicate (places - cs.length) '0' ++ cs, rfl, ?_, ?_, ?_⟩
    · rw [List.length_append, List.length_replicate]
      omega
    · exact read_zeros_append (places - cs.length + 1) cs
    · intro c hc
      simp only [List.singleton_append, List.mem_cons, List.mem_append, List.mem_replicate] at hc
      rcases hc with rfl | ⟨-, rfl⟩ | hc
      · rfl
      · rfl
      · exact h c hc

/-! ### The text of a numeral -/

/-- What a numeral shows without its sign: digits alone, or digits around a point. -/
theorem magnitudeChars_cases (d : Decimal) :
    (d.places = 0 ∧ read d.magnitudeChars = d.scaled ∧ ∀ c ∈ d.magnitudeChars, c.isDigit = true) ∨
    ∃ front back, d.magnitudeChars = front ++ '.' :: back ∧ back.length = d.places ∧
      read (front ++ back) = d.scaled ∧ ∀ c ∈ front ++ back, c.isDigit = true := by
  obtain ⟨negative, digits, power⟩ := d
  cases power with
  | ofNat zeros =>
      left
      refine ⟨by simp [places], ?_, ?_⟩
      · rw [magnitudeChars, read_append_zeros, read_digitChars]
        rfl
      · intro c hc
        rcases List.mem_append.mp hc with hc | hc
        · exact isDigit_of_mem_digitChars hc
        · rw [(List.mem_replicate.mp hc).2]
          rfl
  | negSucc n =>
      right
      have hall : ∀ c ∈ digitChars digits, c.isDigit = true := fun _ => isDigit_of_mem_digitChars
      obtain ⟨front, back, h, hback, hread, hdigits⟩ := exists_withPoint_eq hall (n + 1)
      refine ⟨front, back, h, hback, ?_, hdigits⟩
      rw [hread, read_digitChars]
      exact (Nat.mul_one digits).symm

theorem isDigit_or_point_of_mem {d : Decimal} {c : Char} (h : c ∈ d.magnitudeChars) :
    c.isDigit = true ∨ c = '.' := by
  rcases d.magnitudeChars_cases with ⟨-, -, hdigits⟩ | ⟨front, back, hchars, -, -, hdigits⟩
  · exact Or.inl (hdigits c h)
  · rw [hchars, List.mem_append, List.mem_cons] at h
    rcases h with h | h | h
    · exact Or.inl (hdigits c (List.mem_append_left _ h))
    · exact Or.inr h
    · exact Or.inl (hdigits c (List.mem_append_right _ h))

theorem magnitudeChars_ne_nil (d : Decimal) : d.magnitudeChars ≠ [] := by
  rw [magnitudeChars]
  split
  · exact List.append_ne_nil_of_left_ne_nil Nat.toDigits_ne_nil _
  · rw [withPoint]
    split
    · exact List.append_ne_nil_of_right_ne_nil _ (List.cons_ne_nil _ _)
    · exact List.cons_ne_nil _ _

theorem eq_of_magnitudeChars_eq {d e : Decimal} (h : d.magnitudeChars = e.magnitudeChars) :
    d.places = e.places ∧ d.scaled = e.scaled := by
  rcases d.magnitudeChars_cases with ⟨hd, hread, hdigits⟩ | ⟨front, back, hd, hback, hread, hdigits⟩
  · rcases e.magnitudeChars_cases with ⟨he, hread', -⟩ | ⟨front', back', he, -, -, -⟩
    · exact ⟨hd.trans he.symm, by rw [← hread, h, hread']⟩
    · have hpoint : '.' ∈ d.magnitudeChars := by rw [h, he]; simp
      exact absurd hpoint (point_notMem_of_isDigit hdigits)
  · rcases e.magnitudeChars_cases with ⟨-, -, hdigits'⟩ | ⟨front', back', he, hback', hread', hdigits'⟩
    · have hpoint : '.' ∈ e.magnitudeChars := by rw [← h, hd]; simp
      exact absurd hpoint (point_notMem_of_isDigit hdigits')
    · have hfront := point_notMem_of_isDigit hdigits
      have hfront' := point_notMem_of_isDigit hdigits'
      obtain ⟨rfl, rfl⟩ := closed_append_inj (fun hc => hfront (List.mem_append_left _ hc))
        (fun hc => hfront' (List.mem_append_left _ hc)) (hd.symm.trans (h.trans he))
      exact ⟨hback.symm.trans hback', hread.symm.trans hread'⟩

theorem eq_of_text_eq {d e : Decimal} (h : d.text = e.text) :
    d.negative = e.negative ∧ d.places = e.places ∧ d.scaled = e.scaled := by
  have hminus (d e : Decimal) : '-' :: d.magnitudeChars ≠ e.magnitudeChars := by
    intro heq
    have hmem : '-' ∈ e.magnitudeChars := by rw [← heq]; exact List.mem_cons_self
    rcases isDigit_or_point_of_mem hmem with hdigit | hpoint
    · cases hdigit
    · cases hpoint
  have hchars := String.ofList_injective h
  cases hd : d.negative <;> cases he : e.negative <;> simp only [hd, he] at hchars
  · exact ⟨rfl, eq_of_magnitudeChars_eq hchars⟩
  · exact absurd hchars.symm (hminus e d)
  · exact absurd hchars (hminus d e)
  · exact ⟨rfl, eq_of_magnitudeChars_eq (List.tail_eq_of_cons_eq hchars)⟩

end Decimal

namespace Binary64

/-! ### The text of a number -/

theorem scaled_pos_of_holds {rank : Nat} (h : 0 < rank) {d : Decimal}
    (hd : (interval rank).Holds d) : 0 < d.scaled := by
  have hunits : 0 < units rank := Nat.zero_lt_of_lt (units_strictMono h)
  have hlow : 0 < (interval rank).low := Nat.add_pos_right _ hunits
  have hle : (interval rank).low * 10 ^ d.places ≤ d.scaled * (2 * one) := (Interval.le_of_contains hd).1
  have hpos : 0 < (interval rank).low * 10 ^ d.places := Nat.mul_pos hlow (Nat.pow_pos (by decide))
  exact Nat.pos_of_mul_pos_right (Nat.lt_of_lt_of_le hpos hle)

theorem rank_eq_of_holds {a b : Nat} {d e : Decimal} (ha : (interval a).Holds d)
    (hb : (interval b).Holds e) (hplaces : d.places = e.places) (hscaled : d.scaled = e.scaled) :
    a = b := by
  rw [Interval.Holds, hplaces, hscaled] at ha
  exact rank_eq_of_contains (Nat.pow_pos (by decide)) ha hb

theorem shortest_zero (negative : Bool) : shortest negative 0 = ⟨false, 0, 0⟩ := by
  rw [shortest, if_pos rfl]

theorem negative_shortest {rank : Nat} (h : 0 < rank) (negative : Bool) :
    (shortest negative rank).negative = negative := by
  rw [shortest, if_neg h.ne']

theorem scaled_shortest_zero_ne {rank : Nat} (h : 0 < rank) (s t : Bool) :
    (shortest s 0).scaled ≠ (shortest t rank).scaled := by
  have hpos := scaled_pos_of_holds h (holds_shortest h t)
  rw [shortest_zero]
  exact hpos.ne

/-- Finite numbers with the same text are equal, as zeros of either sign are. -/
theorem numEq_of_text_eq {x y : Binary64} (hx : x.isFinite = true) (hy : y.isFinite = true)
    (h : x.text = y.text) : x.numEq y = true := by
  cases x with
  | nan | infinite => cases hx
  | finite s a =>
      cases y with
      | nan | infinite => cases hy
      | finite t b =>
          obtain ⟨hsign, hplaces, hscaled⟩ := Decimal.eq_of_text_eq h
          rcases Nat.eq_zero_or_pos a.val with ha | ha <;> rcases Nat.eq_zero_or_pos b.val with hb | hb
          · have hab : a = b := Fin.ext (ha.trans hb.symm)
            simp [numEq, hab, hb]
          · rw [ha] at hscaled
            exact absurd hscaled (scaled_shortest_zero_ne hb s t)
          · rw [hb] at hscaled
            exact absurd hscaled.symm (scaled_shortest_zero_ne ha t s)
          · have hab : a = b :=
              Fin.ext (rank_eq_of_holds (holds_shortest ha s) (holds_shortest hb t) hplaces hscaled)
            rw [negative_shortest ha, negative_shortest hb] at hsign
            simp [numEq, hab, hsign]

/-! ### The characters of a number -/

/-- The characters that the text of a finite number is made of. -/
def isNumeral (c : Char) : Bool := c.isDigit || c == '.' || c == '-'

theorem isNumeral_of_mem_text {x : Binary64} {c : Char} (hx : x.isFinite = true)
    (h : c ∈ x.text.toList) : isNumeral c = true := by
  cases x with
  | nan | infinite => cases hx
  | finite s a =>
      rw [text, Decimal.text, String.toList_ofList] at h
      have hmagnitude (hc : c ∈ (shortest s a.val).magnitudeChars) : isNumeral c = true := by
        rcases Decimal.isDigit_or_point_of_mem hc with hdigit | rfl
        · simp [isNumeral, hdigit]
        · rfl
      split at h
      · rcases List.mem_cons.mp h with rfl | h
        · rfl
        · exact hmagnitude h
      · exact hmagnitude h

theorem text_ne_nil {x : Binary64} (hx : x.isFinite = true) : x.text.toList ≠ [] := by
  cases x with
  | nan | infinite => cases hx
  | finite s a =>
      rw [text, Decimal.text, String.toList_ofList]
      split
      · exact List.cons_ne_nil _ _
      · exact Decimal.magnitudeChars_ne_nil _

end Binary64
end SheetFormula

import SheetFormula.Proofs.Description.Arguments
import SheetFormula.Proofs.Description.Lookup

/-! Applying functions to arguments. The arity under which an operation is registered admits just the
argument lists of the expressions with that operation, and from such a list the operation makes the
expression that has it. So with the standard registry a name and a list of arguments determine the
expression, and the other way round (`Registry.build_standard_eq_ok_iff`). -/

namespace SheetFormula

theorem bind_eq_ok_iff {ε α β : Type} {x : Except ε α} {f : α → Except ε β} {b : β} :
    x >>= f = .ok b ↔ ∃ a, x = .ok a ∧ f a = .ok b := by
  cases x with
  | error err => exact ⟨nofun, fun ⟨_, h, _⟩ => nomatch h⟩
  | ok a => exact ⟨fun h => ⟨a, rfl, h⟩, fun ⟨_, h, h'⟩ => by cases h; exact h'⟩

theorem map_eq_ok_iff {ε α β : Type} {x : Except ε α} {f : α → β} {b : β} :
    x.map f = .ok b ↔ ∃ a, x = .ok a ∧ b = f a := by
  cases x with
  | error err => simp [Except.map]
  | ok a => simp [Except.map, eq_comm]

theorem mapError_eq_ok_iff {ε ε' α : Type} {x : Except ε α} {f : ε → ε'} {a : α} :
    x.mapError f = .ok a ↔ x = .ok a := by
  cases x <;> simp [Except.mapError]

namespace Arity

theorem admits_eq_true_iff {a : Arity} {n : Nat} :
    a.admits n = true ↔ a.min ≤ n ∧ ∀ max, a.max = some max → n ≤ max := by
  rw [admits, Bool.and_eq_true, decide_eq_true_iff]
  cases a.max with
  | none => simp
  | some max => simp

theorem admits_exactly {n m : Nat} : (exactly n).admits m = true ↔ m = n := by
  rw [admits_eq_true_iff, exactly]
  grind

theorem admits_between {min max n : Nat} :
    (between min max).admits n = true ↔ min ≤ n ∧ n ≤ max := by
  rw [admits_eq_true_iff, between]
  grind

theorem admits_atLeast {min n : Nat} : (atLeast min).admits n = true ↔ min ≤ n := by
  rw [admits_eq_true_iff, atLeast]
  grind

end Arity

namespace Expr

theorem asBranch_eq_ok_iff {e : Expr} {b : Branch} : e.asBranch = .ok b ↔ e = .branch b := by
  cases e <;> simp [asBranch]

theorem mapM_asBranch_eq_ok_iff {es : List Expr} {bs : List Branch} :
    es.mapM asBranch = .ok bs ↔ es = bs.map branch := by
  induction es generalizing bs with
  | nil => cases bs <;> simp [pure, Except.pure]
  | cons e es ih =>
      rw [List.mapM_cons, bind_eq_ok_iff]
      constructor
      · rintro ⟨b, hb, h⟩
        obtain ⟨bs, hbs, h⟩ := bind_eq_ok_iff.mp h
        cases h
        rw [asBranch_eq_ok_iff.mp hb, ih.mp hbs, List.map_cons]
      · intro h
        cases bs with
        | nil => cases h
        | cons b bs =>
            obtain ⟨he, hes⟩ := List.cons_eq_cons.mp h
            exact ⟨b, asBranch_eq_ok_iff.mpr he, bind_eq_ok_iff.mpr ⟨bs, ih.mpr hes, rfl⟩⟩

theorem arrayJoinOfArguments_eq_ok_iff {es : List Expr} {e : Expr} :
    arrayJoinOfArguments es = .ok e ↔
      ∃ parts separator, es = parts ++ [text separator] ∧ e = arrayJoin parts separator := by
  constructor
  · intro h
    rcases List.eq_nil_or_concat es with rfl | ⟨parts, last, rfl⟩
    · cases h
    · rw [List.concat_eq_append, arrayJoinOfArguments, List.getLast?_concat] at h
      cases last with
      | text separator =>
          rw [List.dropLast_concat] at h
          cases h
          exact ⟨parts, separator, List.concat_eq_append, rfl⟩
      | _ => cases h
  · rintro ⟨parts, separator, rfl, rfl⟩
    rw [arrayJoinOfArguments, List.getLast?_concat, List.dropLast_concat]

theorem admits_arguments {e : Expr} {arity : Arity} (hfits : e.FitsCall)
    (harity : e.operation.standardArity? = some arity) : arity.admits e.arguments.length = true := by
  cases e with
  | text | number | field => cases harity
  | arrayJoinOf => cases hfits
  | constant | unary | count | mid | replace | conditional | operator =>
      cases harity
      exact Arity.admits_exactly.mpr rfl
  | join parts | concatenate parts | logical _ parts =>
      cases harity
      exact Arity.admits_atLeast.mpr (List.length_pos_iff.mpr hfits)
  | arrayJoin parts separator =>
      cases harity
      have hpos : 0 < parts.length := List.length_pos_iff.mpr hfits
      rw [Arity.admits_atLeast, arguments, List.length_append, List.length_singleton]
      omega
  | switch pattern branches =>
      cases harity
      have hpos : 0 < branches.length := List.length_pos_iff.mpr hfits
      rw [Arity.admits_atLeast, arguments, List.length_cons, List.length_map]
      omega
  | branch b =>
      cases harity
      cases b <;> exact Arity.admits_between.mpr (by simp [arguments, children, Branch.children])
  | locate _ _ _ last | substitute _ _ _ last =>
      cases harity
      cases last <;> exact Arity.admits_between.mpr (by simp [arguments, children])

theorem build_arguments {e : Expr} (hfits : e.FitsCall) (hliteral : e.isLiteral = false) :
    e.operation.build e.arguments = .ok e := by
  cases e with
  | text | number | field => cases hliteral
  | arrayJoinOf => cases hfits
  | arrayJoin parts separator =>
      exact arrayJoinOfArguments_eq_ok_iff.mpr ⟨parts, separator, rfl, rfl⟩
  | switch pattern branches =>
      have h : (branches.map branch).mapM asBranch = .ok branches := mapM_asBranch_eq_ok_iff.mpr rfl
      show Except.map _ ((branches.map branch).mapM asBranch) = _
      rw [h]
      rfl
  | branch b => cases b <;> rfl
  | locate f needle haystack start => cases start <;> rfl
  | substitute string old new index => cases index <;> rfl
  | _ => rfl

end Expr

theorem Operation.of_build_eq_ok {op : Operation} {arity : Arity} {es : List Expr} {e : Expr}
    (harity : op.standardArity? = some arity) (hadmits : arity.admits es.length = true)
    (h : op.build es = .ok e) : e.operation = op ∧ e.arguments = es ∧ e.FitsCall := by
  cases op with
  | text | number | field => cases harity
  | constant c =>
      cases harity
      cases List.length_eq_zero_iff.mp (Arity.admits_exactly.mp hadmits)
      cases h
      exact ⟨rfl, rfl, trivial⟩
  | unary f =>
      cases harity
      obtain ⟨a, rfl⟩ := List.length_eq_one_iff.mp (Arity.admits_exactly.mp hadmits)
      cases h
      exact ⟨rfl, rfl, trivial⟩
  | count | operator =>
      cases harity
      obtain ⟨a, b, rfl⟩ := List.length_eq_two.mp (Arity.admits_exactly.mp hadmits)
      cases h
      exact ⟨rfl, rfl, trivial⟩
  | mid | conditional =>
      cases harity
      obtain ⟨a, b, c, rfl⟩ := List.length_eq_three.mp (Arity.admits_exactly.mp hadmits)
      cases h
      exact ⟨rfl, rfl, trivial⟩
  | replace =>
      cases harity
      obtain ⟨a, b, c, d, rfl⟩ := List.length_eq_four.mp (Arity.admits_exactly.mp hadmits)
      cases h
      exact ⟨rfl, rfl, trivial⟩
  | join | concatenate | logical =>
      cases harity
      cases h
      exact ⟨rfl, rfl, List.length_pos_iff.mp (Arity.admits_atLeast.mp hadmits)⟩
  | arrayJoin =>
      cases harity
      obtain ⟨parts, separator, rfl, rfl⟩ := Expr.arrayJoinOfArguments_eq_ok_iff.mp h
      have hlength := Arity.admits_atLeast.mp hadmits
      rw [List.length_append, List.length_singleton] at hlength
      exact ⟨rfl, rfl, List.length_pos_iff.mp (Nat.le_of_succ_le_succ hlength)⟩
  | locate =>
      cases harity
      obtain ⟨hmin, hmax⟩ := Arity.admits_between.mp hadmits
      match es with
      | [needle, haystack] | [needle, haystack, start] =>
          cases h
          exact ⟨rfl, rfl, trivial⟩
  | substitute =>
      cases harity
      obtain ⟨hmin, hmax⟩ := Arity.admits_between.mp hadmits
      match es with
      | [string, old, new] | [string, old, new, index] =>
          cases h
          exact ⟨rfl, rfl, trivial⟩
  | branch =>
      cases harity
      obtain ⟨hmin, hmax⟩ := Arity.admits_between.mp hadmits
      match es with
      | [value] | [condition, value] =>
          cases h
          exact ⟨rfl, rfl, trivial⟩
  | switch =>
      cases harity
      have hlength := Arity.admits_atLeast.mp hadmits
      match es with
      | pattern :: rest =>
          obtain ⟨branches, hbranches, rfl⟩ := map_eq_ok_iff.mp h
          cases Expr.mapM_asBranch_eq_ok_iff.mp hbranches
          rw [List.length_cons, List.length_map] at hlength
          exact ⟨rfl, rfl, List.length_pos_iff.mp (Nat.le_of_succ_le_succ hlength)⟩

theorem Registry.build_eq_ok_iff {r : Registry} {name : String} {es : List Expr} {e : Expr} :
    r.build name es = .ok e ↔
      ∃ d, r.get? name = some d ∧ d.arity.admits es.length = true ∧ d.operation.build es = .ok e := by
  rw [build]
  cases r.get? name with
  | none => simp
  | some d =>
      by_cases hadmits : d.arity.admits es.length = true
      · simp [hadmits, mapError_eq_ok_iff]
      · simp [hadmits]

/-- What the standard registry builds from arguments under a name: the expressions with these arguments
and an operation of that name. -/
theorem Registry.build_standard_eq_ok_iff {name : String} {es : List Expr} {e : Expr} :
    Registry.standard.build name es = .ok e ↔
      e.isLiteral = false ∧ e.operation.name = Text.upper name ∧ e.arguments = es ∧ e.FitsCall := by
  rw [build_eq_ok_iff]
  constructor
  · rintro ⟨d, hget, hadmits, h⟩
    obtain ⟨op, arity, harity, rfl, hname⟩ := get?_standard_eq_some_iff.mp hget
    obtain ⟨rfl, harguments, hfits⟩ := Operation.of_build_eq_ok harity hadmits h
    refine ⟨?_, hname, harguments, hfits⟩
    cases e with
    | text | number | field => cases harity
    | _ => rfl
  · rintro ⟨hliteral, hname, rfl, hfits⟩
    obtain ⟨arity, harity⟩ : ∃ arity, e.operation.standardArity? = some arity := by
      cases e with
      | text | number | field => cases hliteral
      | _ => exact ⟨_, rfl⟩
    have hget : Registry.standard.get? name = some (.ofOperation e.operation arity) :=
      get?_standard_eq_some_iff.mpr ⟨_, _, harity, rfl, hname⟩
    exact ⟨_, hget, Expr.admits_arguments hfits harity, Expr.build_arguments hfits hliteral⟩

end SheetFormula

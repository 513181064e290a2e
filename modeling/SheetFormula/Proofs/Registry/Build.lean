import SheetFormula.Proofs.Description.Application
import SheetFormula.Proofs.Registry.Register

/-! Building with any registry. A definition may be registered under any arity, so an operation can be
given fewer arguments than it needs, more than it takes, and arguments of any shape. -/

namespace SheetFormula

namespace Operation

/-- Whether an operation is that of a literal. -/
def isLiteral : Operation → Bool
  | text | number | field => true
  | _ => false

/-- Whether an operation takes all of its arguments, however many there are. -/
def isVariadic : Operation → Bool
  | join | concatenate | arrayJoin | logical _ | switch => true
  | _ => false

/-- How many arguments an operation takes one by one and cannot do without. -/
def required : Operation → Nat
  | unary _ | branch | switch => 1
  | count _ | locate _ | operator _ => 2
  | mid | substitute | conditional => 3
  | replace => 4
  | _ => 0

/-- How many more arguments an operation takes one by one if there are more. -/
def optional : Operation → Nat
  | locate _ | substitute | branch => 1
  | _ => 0

/-- The arguments that an operation takes. The others are left. -/
def taken (op : Operation) (es : List Expr) : List Expr :=
  if op.isVariadic then es else es.take (op.required + op.optional)

/-- The children that an operation makes of its arguments. The separator of an array join is no child,
and of a branch of a `switch` the children are. -/
def childrenOf (op : Operation) (es : List Expr) : List Expr :=
  match op, es with
  | arrayJoin, es => es.dropLast
  | switch, pattern :: branches => pattern :: branches.flatMap Expr.children
  | op, es => op.taken es

/-- What is to be expected of an expression that an operation makes of arguments: its arguments are the
ones that were taken, in their order, and so are its children. An array join is one of a list. -/
structure Builds (op : Operation) (es : List Expr) (e : Expr) : Prop where
  operation : e.operation = op
  arguments : e.arguments = op.taken es
  children : e.children = op.childrenOf es
  isMany : ∀ part separator, e ≠ .arrayJoinOf part separator

/-- Whether an operation does not accept arguments, whatever their number may be by the definition. -/
def Misused (op : Operation) (es : List Expr) : Prop :=
  op.isLiteral = true ∨ es.length < op.required ∨
    (op = arrayJoin ∧ ∀ last, es.getLast? = some last → last.operation ≠ .text) ∨
    (op = switch ∧ ∃ e ∈ es.tail, e.operation ≠ .branch)

end Operation

/-- When arguments are misused in a given way. -/
def Misuse.Occurs (op : Operation) (es : List Expr) : Misuse → Prop
  | literal o => op.isLiteral = true ∧ o = op
  | missingArgument o => es.length < op.required ∧ o = op
  | missingSeparator => op = .arrayJoin ∧ es = []
  | separator found => op = .arrayJoin ∧ ∃ last, es.getLast? = some last ∧
      last.operation ≠ .text ∧ found = last.operation
  | notBranch found => op = .switch ∧ ∃ before e after, es.tail = before ++ e :: after ∧
      (∀ c ∈ before, c.operation = .branch) ∧ e.operation ≠ .branch ∧ found = e.operation
  | noOptional _ => False

theorem bind_eq_error_iff {ε α β : Type} {x : Except ε α} {f : α → Except ε β} {err : ε} :
    x >>= f = .error err ↔ x = .error err ∨ ∃ a, x = .ok a ∧ f a = .error err := by
  cases x with
  | error err' => simp [bind, Except.bind]
  | ok a => simp [bind, Except.bind]

theorem map_eq_error_iff {ε α β : Type} {x : Except ε α} {f : α → β} {err : ε} :
    x.map f = .error err ↔ x = .error err := by
  cases x <;> simp [Except.map]

namespace Expr

theorem asBranch_eq_error_iff {e : Expr} {m : Misuse} :
    e.asBranch = .error m ↔ e.operation ≠ .branch ∧ m = .notBranch e.operation := by
  cases e <;> simp [asBranch, operation, eq_comm]

/-- The arguments after the pattern of a `switch` are looked at from left to right. -/
theorem mapM_asBranch_eq_error_iff {es : List Expr} {m : Misuse} :
    es.mapM asBranch = .error m ↔ ∃ before e after, es = before ++ e :: after ∧
      (∀ c ∈ before, c.operation = .branch) ∧ e.operation ≠ .branch ∧ m = .notBranch e.operation := by
  induction es with
  | nil => simp [pure, Except.pure]
  | cons e es ih =>
      rw [List.mapM_cons, bind_eq_error_iff, asBranch_eq_error_iff]
      constructor
      · rintro (⟨he, rfl⟩ | ⟨b, hb, h⟩)
        · exact ⟨[], e, es, rfl, nofun, he, rfl⟩
        · cases asBranch_eq_ok_iff.mp hb
          rcases bind_eq_error_iff.mp h with h | ⟨bs, -, h⟩
          · obtain ⟨before, c, after, rfl, hbefore, hc, rfl⟩ := ih.mp h
            exact ⟨branch b :: before, c, after, rfl, List.forall_mem_cons.mpr ⟨rfl, hbefore⟩, hc, rfl⟩
          · cases h
      · rintro ⟨before, c, after, hsplit, hbefore, hc, rfl⟩
        cases before with
        | nil =>
            cases hsplit
            exact Or.inl ⟨hc, rfl⟩
        | cons d before =>
            obtain ⟨rfl, rfl⟩ := List.cons_eq_cons.mp hsplit
            obtain ⟨hd, hbefore⟩ := List.forall_mem_cons.mp hbefore
            cases hbranch : e.asBranch with
            | error m => exact absurd hd (asBranch_eq_error_iff.mp hbranch).1
            | ok b =>
                have hrest := ih.mpr ⟨before, c, after, rfl, hbefore, hc, rfl⟩
                exact Or.inr ⟨b, rfl, bind_eq_error_iff.mpr (Or.inl hrest)⟩

theorem arrayJoinOfArguments_eq_error_iff {es : List Expr} {m : Misuse} :
    arrayJoinOfArguments es = .error m ↔ es = [] ∧ m = .missingSeparator ∨
      ∃ last, es.getLast? = some last ∧ last.operation ≠ .text ∧ m = .separator last.operation := by
  rw [arrayJoinOfArguments]
  cases h : es.getLast? with
  | none => simp [List.getLast?_eq_none_iff.mp h, eq_comm]
  | some last =>
      have hne : es ≠ [] := by
        rintro rfl
        cases h
      cases last <;> simp [hne, operation, eq_comm]

end Expr

namespace Operation

theorem build_of_isLiteral {op : Operation} (h : op.isLiteral = true) (es : List Expr) :
    op.build es = .error (.literal op) := by
  cases op with
  | text | number | field => rfl
  | _ => cases h

theorem build_of_length_lt {op : Operation} {es : List Expr} (h : es.length < op.required) :
    op.build es = .error (.missingArgument op) := by
  cases op with
  | unary | branch | switch =>
      match es, h with
      | [], _ => rfl
  | count | locate | operator =>
      match es, h with
      | [], _ | [_], _ => rfl
  | mid | substitute | conditional =>
      match es, h with
      | [], _ | [_], _ | [_, _], _ => rfl
  | replace =>
      match es, h with
      | [], _ | [_], _ | [_, _], _ | [_, _, _], _ => rfl
  | _ => exact absurd h (Nat.not_lt_zero _)

/-- Where an operation takes its arguments one by one, it is enough that the required ones are there. -/
theorem exists_build_eq_ok {op : Operation} {es : List Expr} (hliteral : op.isLiteral = false)
    (hvariadic : op.isVariadic = false) (h : op.required ≤ es.length) : ∃ e, op.build es = .ok e := by
  cases op with
  | text | number | field => cases hliteral
  | join | concatenate | arrayJoin | logical | switch => cases hvariadic
  | constant => exact ⟨_, rfl⟩
  | unary =>
      match es, h with
      | _ :: _, _ => exact ⟨_, rfl⟩
  | branch =>
      match es, h with
      | [_], _ | _ :: _ :: _, _ => exact ⟨_, rfl⟩
  | count | locate | operator =>
      match es, h with
      | _ :: _ :: _, _ => exact ⟨_, rfl⟩
  | mid | substitute | conditional =>
      match es, h with
      | _ :: _ :: _ :: _, _ => exact ⟨_, rfl⟩
  | replace =>
      match es, h with
      | _ :: _ :: _ :: _ :: _, _ => exact ⟨_, rfl⟩

theorem build_switch_eq_error_iff {pattern : Expr} {es : List Expr} {m : Misuse} :
    switch.build (pattern :: es) = .error m ↔ ∃ before e after, es = before ++ e :: after ∧
      (∀ c ∈ before, c.operation = .branch) ∧ e.operation ≠ .branch ∧ m = .notBranch e.operation :=
  map_eq_error_iff.trans Expr.mapM_asBranch_eq_error_iff

/-- An operation that takes all of its arguments looks only at the separator of an array join, and at the
branches of a `switch`. -/
theorem occurs_of_build_variadic {op : Operation} {es : List Expr} {m : Misuse}
    (hvariadic : op.isVariadic = true) (hlength : op.required ≤ es.length)
    (h : op.build es = .error m) : m.Occurs op es := by
  cases op with
  | join | concatenate | logical => cases h
  | arrayJoin =>
      rcases Expr.arrayJoinOfArguments_eq_error_iff.mp h with ⟨rfl, rfl⟩ | ⟨last, hlast, htext, rfl⟩
      · exact ⟨rfl, rfl⟩
      · exact ⟨rfl, last, hlast, htext, rfl⟩
  | switch =>
      cases es with
      | nil => exact absurd hlength (Nat.not_succ_le_zero 0)
      | cons pattern es =>
          obtain ⟨before, e, after, hsplit, hbefore, he, rfl⟩ := build_switch_eq_error_iff.mp h
          exact ⟨rfl, before, e, after, hsplit, hbefore, he, rfl⟩
  | _ => cases hvariadic

theorem occurs_of_build_eq_error {op : Operation} {es : List Expr} {m : Misuse}
    (h : op.build es = .error m) : m.Occurs op es := by
  cases hliteral : op.isLiteral with
  | true =>
      cases (build_of_isLiteral hliteral es).symm.trans h
      exact ⟨hliteral, rfl⟩
  | false =>
      by_cases hlength : es.length < op.required
      · cases (build_of_length_lt hlength).symm.trans h
        exact ⟨hlength, rfl⟩
      · have hlength := Nat.not_lt.mp hlength
        cases hvariadic : op.isVariadic with
        | true => exact occurs_of_build_variadic hvariadic hlength h
        | false =>
            obtain ⟨e, he⟩ := exists_build_eq_ok hliteral hvariadic hlength
            cases he.symm.trans h

theorem build_eq_error_of_occurs {op : Operation} {es : List Expr} {m : Misuse} (h : m.Occurs op es) :
    op.build es = .error m := by
  cases m with
  | literal =>
      obtain ⟨hliteral, rfl⟩ := h
      exact build_of_isLiteral hliteral es
  | missingArgument =>
      obtain ⟨hlength, rfl⟩ := h
      exact build_of_length_lt hlength
  | missingSeparator =>
      obtain ⟨rfl, rfl⟩ := h
      rfl
  | separator =>
      obtain ⟨rfl, last, hlast, htext, rfl⟩ := h
      exact Expr.arrayJoinOfArguments_eq_error_iff.mpr (Or.inr ⟨last, hlast, htext, rfl⟩)
  | notBranch =>
      obtain ⟨rfl, before, e, after, hsplit, hbefore, he, rfl⟩ := h
      cases es with
      | nil => cases before <;> cases hsplit
      | cons pattern es =>
          exact build_switch_eq_error_iff.mpr ⟨before, e, after, hsplit, hbefore, he, rfl⟩
  | noOptional => cases h

/-- An operation fails with just the misuses that occur. -/
theorem build_eq_error_iff {op : Operation} {es : List Expr} {m : Misuse} :
    op.build es = .error m ↔ m.Occurs op es :=
  ⟨occurs_of_build_eq_error, build_eq_error_of_occurs⟩

theorem builds_of_build_eq_ok {op : Operation} {es : List Expr} {e : Expr}
    (h : op.build es = .ok e) : op.Builds es e := by
  cases op with
  | text | number | field => cases h
  | constant c =>
      cases h
      exact ⟨rfl, rfl, rfl, nofun⟩
  | join | concatenate | logical =>
      cases h
      exact ⟨rfl, rfl, rfl, nofun⟩
  | arrayJoin =>
      obtain ⟨parts, separator, rfl, rfl⟩ := Expr.arrayJoinOfArguments_eq_ok_iff.mp h
      exact ⟨rfl, rfl, List.dropLast_concat.symm, nofun⟩
  | unary =>
      match es with
      | a :: _ =>
          cases h
          exact ⟨rfl, rfl, rfl, nofun⟩
  | count | operator =>
      match es with
      | a :: b :: _ =>
          cases h
          exact ⟨rfl, rfl, rfl, nofun⟩
  | mid | conditional =>
      match es with
      | a :: b :: c :: _ =>
          cases h
          exact ⟨rfl, rfl, rfl, nofun⟩
  | replace =>
      match es with
      | a :: b :: c :: d :: _ =>
          cases h
          exact ⟨rfl, rfl, rfl, nofun⟩
  | locate =>
      match es with
      | [_, _] | _ :: _ :: _ :: _ =>
          cases h
          exact ⟨rfl, rfl, rfl, nofun⟩
  | substitute =>
      match es with
      | [_, _, _] | _ :: _ :: _ :: _ :: _ =>
          cases h
          exact ⟨rfl, rfl, rfl, nofun⟩
  | branch =>
      match es with
      | [_] | _ :: _ :: _ =>
          cases h
          exact ⟨rfl, rfl, rfl, nofun⟩
  | switch =>
      match es with
      | pattern :: rest =>
          obtain ⟨branches, hbranches, rfl⟩ := map_eq_ok_iff.mp h
          cases Expr.mapM_asBranch_eq_ok_iff.mp hbranches
          refine ⟨rfl, rfl, ?_, nofun⟩
          rw [childrenOf, Expr.children, List.flatMap_map]
          rfl

theorem exists_occurs_iff {op : Operation} {es : List Expr} :
    (∃ m : Misuse, m.Occurs op es) ↔ op.Misused es := by
  constructor
  · rintro ⟨m, h⟩
    cases m with
    | literal => exact Or.inl h.1
    | missingArgument => exact Or.inr (Or.inl h.1)
    | missingSeparator =>
        obtain ⟨rfl, rfl⟩ := h
        exact Or.inr (Or.inr (Or.inl ⟨rfl, nofun⟩))
    | separator =>
        obtain ⟨rfl, last, hlast, htext, -⟩ := h
        refine Or.inr (Or.inr (Or.inl ⟨rfl, fun e he => ?_⟩))
        cases hlast.symm.trans he
        exact htext
    | notBranch =>
        obtain ⟨rfl, before, e, after, hsplit, -, he, -⟩ := h
        have hmem : e ∈ es.tail := hsplit ▸ List.mem_append_right _ List.mem_cons_self
        exact Or.inr (Or.inr (Or.inr ⟨rfl, e, hmem, he⟩))
    | noOptional => cases h
  · rintro (hliteral | hlength | ⟨rfl, hlast⟩ | ⟨rfl, e, hmem, he⟩)
    · exact ⟨.literal op, hliteral, rfl⟩
    · exact ⟨.missingArgument op, hlength, rfl⟩
    · cases h : es.getLast? with
      | none => exact ⟨.missingSeparator, rfl, List.getLast?_eq_none_iff.mp h⟩
      | some last => exact ⟨.separator last.operation, rfl, last, h, hlast last h, rfl⟩
    · have hfound : (es.tail.find? (·.operation ≠ .branch)).isSome :=
        List.find?_isSome.mpr ⟨e, hmem, by simpa using he⟩
      obtain ⟨c, hc⟩ := Option.isSome_iff_exists.mp hfound
      obtain ⟨hne, before, after, hsplit, hbefore⟩ := List.find?_eq_some_iff_append.mp hc
      have hbranches : ∀ d ∈ before, d.operation = .branch := fun d hd => by simpa using hbefore d hd
      exact ⟨.notBranch c.operation, rfl, before, c, after, hsplit, hbranches, by simpa using hne, rfl⟩

end Operation

/-- Whether an arity does not allow for a number of arguments. -/
def Arity.Excludes (a : Arity) (n : Nat) : Prop := n < a.min ∨ ∃ max, a.max = some max ∧ max < n

theorem Arity.admits_iff_not_excludes {a : Arity} {n : Nat} : a.admits n = true ↔ ¬ a.Excludes n := by
  rw [admits_eq_true_iff, Excludes, not_or, Nat.not_lt]
  simp

/-- How an arity is worded: as the only number of arguments, as the least and the greatest one, or as the
least one. -/
inductive Arity.Worded : Arity → String → Prop where
  | exactly (n : Nat) : Worded ⟨n, some n⟩ (toString n)
  | between {min max : Nat} (h : max ≠ min) :
    Worded ⟨min, some max⟩ (toString min ++ " to " ++ toString max)
  | atLeast (min : Nat) : Worded ⟨min, none⟩ ("at least " ++ toString min)

theorem Arity.text_exactly (n : Nat) : Arity.text ⟨n, some n⟩ = toString n := if_pos rfl

theorem Arity.text_between {min max : Nat} (h : max ≠ min) :
    Arity.text ⟨min, some max⟩ = toString min ++ " to " ++ toString max := if_neg h

theorem Arity.worded_iff {a : Arity} {expected : String} : a.Worded expected ↔ a.text = expected := by
  constructor
  · intro h
    cases h with
    | exactly n => exact text_exactly n
    | between h => exact text_between h
    | atLeast min => rfl
  · rintro rfl
    obtain ⟨min, _ | max⟩ := a
    · exact .atLeast min
    · by_cases h : max = min
      · rw [h, text_exactly]
        exact .exactly min
      · rw [text_between h]
        exact .between h

namespace Registry

section Found

variable {r : Registry} {name : String} {d : Definition} {es : List Expr}

theorem build_of_excludes (h : r.get? name = some d) (hcount : d.arity.Excludes es.length) :
    r.build name es = .error (.argumentCount d.name d.arity es.length) := by
  have hadmits : ¬ d.arity.admits es.length = true := by
    rw [Arity.admits_iff_not_excludes, not_not]
    exact hcount
  rw [build, h]
  exact if_neg hadmits

theorem build_of_not_excludes (h : r.get? name = some d) (hcount : ¬ d.arity.Excludes es.length) :
    r.build name es = (d.operation.build es).mapError .misuse := by
  rw [build, h]
  exact if_pos (Arity.admits_iff_not_excludes.mpr hcount)

theorem build_eq_argumentCount_iff (h : r.get? name = some d) {f : String} {arity : Arity} {n : Nat} :
    r.build name es = .error (.argumentCount f arity n) ↔
      d.arity.Excludes es.length ∧ f = d.name ∧ arity = d.arity ∧ n = es.length := by
  by_cases hcount : d.arity.Excludes es.length
  · rw [build_of_excludes h hcount]
    simp [hcount, eq_comm]
  · rw [build_of_not_excludes h hcount]
    cases d.operation.build es <;> simp [hcount, Except.mapError]

theorem build_eq_misuse_iff (h : r.get? name = some d) {m : Misuse} :
    r.build name es = .error (.misuse m) ↔ ¬ d.arity.Excludes es.length ∧ m.Occurs d.operation es := by
  by_cases hcount : d.arity.Excludes es.length
  · rw [build_of_excludes h hcount]
    simp [hcount]
  · rw [build_of_not_excludes h hcount, ← Operation.build_eq_error_iff]
    cases d.operation.build es <;> simp [hcount, Except.mapError]

theorem exists_builds (h : r.get? name = some d) (hcount : ¬ d.arity.Excludes es.length)
    (hshape : ¬ d.operation.Misused es) : ∃ e, r.build name es = .ok e ∧ d.operation.Builds es e := by
  rw [build_of_not_excludes h hcount]
  cases hbuild : d.operation.build es with
  | ok e => exact ⟨e, rfl, Operation.builds_of_build_eq_ok hbuild⟩
  | error m =>
      have hoccurs := Operation.build_eq_error_iff.mp hbuild
      exact absurd (Operation.exists_occurs_iff.mp ⟨m, hoccurs⟩) hshape

theorem build_eq_unknownFunction_iff {unknown : String} :
    r.build name es = .error (.unknownFunction unknown) ↔ unknown = name ∧ r.get? name = none := by
  cases h : r.get? name with
  | none => simp [build, h, eq_comm]
  | some d =>
      by_cases hcount : d.arity.Excludes es.length
      · simp [build_of_excludes h hcount]
      · rw [build_of_not_excludes h hcount]
        cases d.operation.build es <;> simp [Except.mapError]

end Found

/-- What a registry builds, after any registrations. A name without a definition is unknown. Otherwise the
last definition under the name decides: first by the number of arguments, then by their shapes, and where
neither is wrong, its operation makes an expression of the arguments that it takes. An error about the number
of arguments tells in words how many there may be. -/
theorem build_by_latest_definition (ds : List Definition) (name : String) (es : List Expr) :
    let built := (Registry.standard.registerAll ds).build name es
    (∀ unknown, built = .error (.unknownFunction unknown) ↔
      unknown = name ∧ ∀ d ∈ Definition.standard ++ ds, d.key ≠ Text.upper name) ∧
    ∀ d, Definition.latest? (Definition.standard ++ ds) name = some d →
      (∀ f arity n, built = .error (.argumentCount f arity n) ↔
        d.arity.Excludes es.length ∧ f = d.name ∧ arity = d.arity ∧ n = es.length) ∧
      (∃ expected, d.arity.Worded expected ∧ (d.arity.Excludes es.length → ∃ err, built = .error err ∧
        err.message = "Wrong number of arguments for " ++ d.name ++ ": expected " ++ expected ++
          ", got " ++ toString es.length)) ∧
      (∀ m, built = .error (.misuse m) ↔ ¬ d.arity.Excludes es.length ∧ m.Occurs d.operation es) ∧
      ((∃ m, built = .error (.misuse m)) ↔
        ¬ d.arity.Excludes es.length ∧ d.operation.Misused es) ∧
      (¬ d.arity.Excludes es.length → ¬ d.operation.Misused es →
        ∃ e, built = .ok e ∧ d.operation.Builds es e) := by
  intro built
  refine ⟨fun unknown => ?_, fun d hd => ?_⟩
  · rw [build_eq_unknownFunction_iff, get?_registerAll_standard, Definition.latest?_eq_none_iff]
  · rw [← get?_registerAll_standard] at hd
    refine ⟨fun f arity n => build_eq_argumentCount_iff hd,
      ⟨d.arity.text, Arity.worded_iff.mpr rfl, fun hcount => ⟨_, build_of_excludes hd hcount, rfl⟩⟩,
      fun m => build_eq_misuse_iff hd, ?_, exists_builds hd⟩
    rw [exists_congr fun m => build_eq_misuse_iff hd, exists_and_left, Operation.exists_occurs_iff]

end Registry

end SheetFormula

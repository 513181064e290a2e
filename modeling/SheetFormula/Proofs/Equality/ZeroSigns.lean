import SheetFormula.Proofs.Reduction.Combination

/-! Expressions without the signs of their zeros. A formula shows both zeros as `0`, so an expression
compiles as it does when each negative zero in it is made positive, to the same text or with the same
error (`Expr.compile_dropZeroSigns`). Nothing about an expression changes with the signs but the numbers
themselves: neither its operation nor the places of its children, nor what stands at which level. -/

namespace SheetFormula

/-! ### Dropping the signs -/

/-- The number itself; for the negative zero, the positive one. -/
def Binary64.dropZeroSign : Binary64 → Binary64
  | .finite negative rank => .finite (negative && rank.val != 0) rank
  | value => value

mutual

/-- The expression with the positive zero in the place of each negative one. -/
def Expr.dropZeroSigns : Expr → Expr
  | .text value => .text value
  | .number value => .number value.dropZeroSign
  | .field name => .field name
  | .constant c => .constant c
  | .join parts => .join (Expr.dropAllZeroSigns parts)
  | .concatenate parts => .concatenate (Expr.dropAllZeroSigns parts)
  | .arrayJoin parts separator => .arrayJoin (Expr.dropAllZeroSigns parts) separator
  | .arrayJoinOf part separator => .arrayJoinOf part.dropZeroSigns separator
  | .unary f argument => .unary f argument.dropZeroSigns
  | .count f string amount => .count f string.dropZeroSigns amount.dropZeroSigns
  | .locate f needle haystack start =>
    .locate f needle.dropZeroSigns haystack.dropZeroSigns (Expr.dropZeroSigns? start)
  | .mid string start length =>
    .mid string.dropZeroSigns start.dropZeroSigns length.dropZeroSigns
  | .replace string start length replacement =>
    .replace string.dropZeroSigns start.dropZeroSigns length.dropZeroSigns
      replacement.dropZeroSigns
  | .substitute string old new index =>
    .substitute string.dropZeroSigns old.dropZeroSigns new.dropZeroSigns (Expr.dropZeroSigns? index)
  | .logical f arguments => .logical f (Expr.dropAllZeroSigns arguments)
  | .conditional condition whenTrue whenFalse =>
    .conditional condition.dropZeroSigns whenTrue.dropZeroSigns whenFalse.dropZeroSigns
  | .branch b => .branch b.dropZeroSigns
  | .switch pattern branches => .switch pattern.dropZeroSigns (Expr.dropBranchZeroSigns branches)
  | .operator o left right => .operator o left.dropZeroSigns right.dropZeroSigns

def Branch.dropZeroSigns : Branch → Branch
  | .when condition value => .when condition.dropZeroSigns value.dropZeroSigns
  | .otherwise value => .otherwise value.dropZeroSigns

def Expr.dropAllZeroSigns : List Expr → List Expr
  | [] => []
  | e :: es => e.dropZeroSigns :: Expr.dropAllZeroSigns es

def Expr.dropZeroSigns? : Option Expr → Option Expr
  | none => none
  | some e => some e.dropZeroSigns

def Expr.dropBranchZeroSigns : List Branch → List Branch
  | [] => []
  | b :: bs => b.dropZeroSigns :: Expr.dropBranchZeroSigns bs

end

namespace Expr

@[simp] theorem dropAllZeroSigns_eq_map (es : List Expr) :
    dropAllZeroSigns es = es.map dropZeroSigns := by
  induction es with
  | nil => rw [dropAllZeroSigns, List.map_nil]
  | cons e es ih => rw [dropAllZeroSigns, List.map_cons, ih]

@[simp] theorem dropZeroSigns?_eq_map (e? : Option Expr) :
    dropZeroSigns? e? = e?.map dropZeroSigns := by
  cases e? with
  | none => rw [dropZeroSigns?, Option.map_none]
  | some e => rw [dropZeroSigns?, Option.map_some]

@[simp] theorem dropBranchZeroSigns_eq_map (bs : List Branch) :
    dropBranchZeroSigns bs = bs.map Branch.dropZeroSigns := by
  induction bs with
  | nil => rw [dropBranchZeroSigns, List.map_nil]
  | cons b bs ih => rw [dropBranchZeroSigns, List.map_cons, ih]

/-! ### What does not change -/

@[simp] theorem operation_dropZeroSigns (e : Expr) : e.dropZeroSigns.operation = e.operation := by
  cases e <;> rfl

@[simp] theorem arrayForm?_dropZeroSigns (e : Expr) : e.dropZeroSigns.arrayForm? = e.arrayForm? := by
  cases e <;> rfl

@[simp] theorem isCompound_dropZeroSigns (e : Expr) : e.dropZeroSigns.isCompound = e.isCompound := by
  cases e <;> rfl

@[simp] theorem isLiteral_dropZeroSigns (e : Expr) : e.dropZeroSigns.isLiteral = e.isLiteral := by
  cases e <;> rfl

end Expr

theorem Branch.children_dropZeroSigns (b : Branch) :
    b.dropZeroSigns.children = b.children.map Expr.dropZeroSigns := by
  cases b <;> rfl

theorem Expr.children_dropZeroSigns (e : Expr) :
    e.dropZeroSigns.children = e.children.map dropZeroSigns := by
  cases e with
  | branch b => exact b.children_dropZeroSigns
  | switch pattern branches =>
      simp [dropZeroSigns, children, List.flatMap_map, List.map_flatMap, Branch.children_dropZeroSigns]
  | locate _ _ _ last | substitute _ _ _ last => cases last <;> rfl
  | _ => simp [dropZeroSigns, children]

/-! ### Texts and faults -/

namespace Binary64

@[simp] theorem isFinite_dropZeroSign (v : Binary64) : v.dropZeroSign.isFinite = v.isFinite := by
  cases v <;> rfl

theorem dropZeroSign_of_not_isFinite {v : Binary64} (h : v.isFinite = false) :
    v.dropZeroSign = v := by
  cases v with
  | finite => cases h
  | _ => rfl

/-- The two zeros have the same text. -/
@[simp] theorem text_dropZeroSign (v : Binary64) : v.dropZeroSign.text = v.text := by
  cases v with
  | finite negative rank =>
      rw [dropZeroSign, text, text]
      by_cases hzero : rank.val = 0
      · rw [shortest, shortest, if_pos hzero, if_pos hzero]
      · have hsign : (negative && rank.val != 0) = negative := by simp [hzero]
        rw [hsign]
  | _ => rfl

end Binary64

theorem Expr.formula_dropZeroSigns (e : Expr) : e.dropZeroSigns.formula = e.formula := by
  induction e using Expr.induction with
  | step e ih =>
      cases hliteral : e.isLiteral with
      | true =>
          cases e with
          | number v => exact v.text_dropZeroSign
          | text | field => rfl
          | _ => cases hliteral
      | false =>
          have hparts : (e.children.map dropZeroSigns).map part = e.children.map part := by
            rw [List.map_map]
            refine List.map_congr_left fun c hc => ?_
            rw [Function.comp_apply, part, part, ih c hc, isCompound_dropZeroSigns]
          rw [formula_eq_combine hliteral, formula_eq_combine (by simpa using hliteral),
            operation_dropZeroSigns, arrayForm?_dropZeroSigns, children_dropZeroSigns, hparts]

theorem Expr.ownFault?_dropZeroSigns (e : Expr) : e.dropZeroSigns.ownFault? = e.ownFault? := by
  cases e with
  | number v =>
      rw [dropZeroSigns, ownFault?, ownFault?, Binary64.isFinite_dropZeroSign]
      cases hfinite : v.isFinite with
      | true => rfl
      | false => rw [Binary64.dropZeroSign_of_not_isFinite hfinite]
  | join es | concatenate es | arrayJoin es _ | logical _ es | switch _ es => cases es <;> rfl
  | _ => rfl

/-! ### Entries -/

def Subject.dropZeroSigns : Subject → Subject
  | expr e => expr e.dropZeroSigns
  | branch b => branch b.dropZeroSigns

def Entry.dropZeroSigns (x : Entry) : Entry := { x with subject := x.subject.dropZeroSigns }

theorem Branch.subjects_dropZeroSigns (b : Branch) :
    b.dropZeroSigns.subjects = b.subjects.map Subject.dropZeroSigns := by
  cases b <;> rfl

theorem Expr.subjects_dropZeroSigns (e : Expr) :
    e.dropZeroSigns.subjects = e.subjects.map Subject.dropZeroSigns := by
  cases e with
  | branch b => exact b.subjects_dropZeroSigns
  | switch pattern branches => simp [dropZeroSigns, subjects, Subject.dropZeroSigns]
  | locate _ _ _ last | substitute _ _ _ last => cases last <;> rfl
  | _ => simp [dropZeroSigns, subjects, children, Subject.dropZeroSigns]

theorem Subject.subjects_dropZeroSigns (s : Subject) :
    s.dropZeroSigns.subjects = s.subjects.map dropZeroSigns := by
  cases s with
  | expr e => exact e.subjects_dropZeroSigns
  | branch b => exact b.subjects_dropZeroSigns

theorem Subject.entries_dropZeroSigns (s : Subject) (level : Nat) :
    s.dropZeroSigns.entries level = (s.entries level).map Entry.dropZeroSigns := by
  induction s using Subject.induction generalizing level with
  | step s ih =>
      have hbelow : (s.subjects.map dropZeroSigns).flatMap (entries (level + 1)) =
          (s.subjects.flatMap (entries (level + 1))).map Entry.dropZeroSigns := by
        rw [List.flatMap_map, List.map_flatMap]
        exact List.flatMap_congr fun c hc => ih c hc (level + 1)
      rw [entries_eq, entries_eq level s, subjects_dropZeroSigns, hbelow, List.map_cons,
        Entry.dropZeroSigns]

theorem Entry.fault?_dropZeroSigns (limit : Nat) (x : Entry) :
    x.dropZeroSigns.fault? limit = x.fault? limit := by
  obtain ⟨level, subject⟩ := x
  cases subject with
  | expr e => rw [fault?, fault?, dropZeroSigns, Subject.dropZeroSigns, Subject.ownFault?,
      Expr.ownFault?_dropZeroSigns, Subject.ownFault?]
  | branch b => rfl

/-- The signs of zeros make no difference to a compilation. -/
theorem Expr.compile_dropZeroSigns (e : Expr) (limit : Nat) :
    e.dropZeroSigns.compile limit = e.compile limit := by
  have hentries : (Subject.expr e.dropZeroSigns).entries 1 =
      ((Subject.expr e).entries 1).map Entry.dropZeroSigns :=
    (Subject.expr e).entries_dropZeroSigns 1
  have hfaults : Entry.fault? limit ∘ Entry.dropZeroSigns = Entry.fault? limit :=
    funext fun x => x.fault?_dropZeroSigns limit
  rw [compile_eq, compile_eq, hentries, List.findSome?_map, hfaults, formula_dropZeroSigns]

end SheetFormula

import SheetFormula.Proofs.Json.Integer
import SheetFormula.Proofs.Json.Nesting
import SheetFormula.Proofs.Text.Quoted

/-! The texts of a JSON value, as the grammar has them: any spelling of its texts and keys, and any blanks
between tokens. Of the numbers there are the integers here, which have one decimal form. The reader takes
each of these texts for the value, if the nesting of the value is within the limit (`read_of_spelled`);
what follows the value does not matter, as long as it does not go on with a number. The proof follows the
grammar and says of each part what the run of the reader over it comes to, from any state that may begin
with the part. -/

namespace SheetFormula
namespace Json

/-! ### Texts of values -/

/-- Characters that may stand between tokens. -/
def Blank (ws : List Char) : Prop := ∀ c ∈ ws, isBlank c = true

instance (ws : List Char) : Decidable (Blank ws) :=
  decidable_of_iff (ws.all isBlank = true) List.all_eq_true

/-- A text between its quotes. -/
inductive SpelledText : String → List Char → Prop where
  | intro {s : String} {content : List Char} (h : SpelledChars s.toList content) :
      SpelledText s ('"' :: (content ++ ['"']))

/-- A key, with blanks around it. -/
inductive SpelledKey : String → List Char → Prop where
  | intro {key : String} {before cs after : List Char} (hbefore : Blank before)
      (h : SpelledText key cs) (hafter : Blank after) : SpelledKey key (before ++ (cs ++ after))

mutual

/-- The texts of a value. -/
inductive Spelled : Json → List Char → Prop where
  | null : Spelled null ['n', 'u', 'l', 'l']
  | true : Spelled (bool true) ['t', 'r', 'u', 'e']
  | false : Spelled (bool false) ['f', 'a', 'l', 's', 'e']
  | integer {x : Binary64} {cs : List Char} (h : SpelledInteger x cs) : Spelled (number x) cs
  | text {s : String} {cs : List Char} (h : SpelledText s cs) : Spelled (string s) cs
  | emptyArray {ws : List Char} (h : Blank ws) : Spelled (array []) ('[' :: (ws ++ [']']))
  | array {items : List Json} {cs : List Char} (h : SpelledItems items cs) :
      Spelled (array items) ('[' :: cs)
  | emptyObject {ws : List Char} (h : Blank ws) : Spelled (object []) ('\x7b' :: (ws ++ ['\x7d']))
  | object {members : List (String × Json)} {cs : List Char} (h : SpelledMembers members cs) :
      Spelled (object members) ('\x7b' :: cs)
  | blanks {v : Json} {before cs after : List Char} (hbefore : Blank before) (h : Spelled v cs)
      (hafter : Blank after) : Spelled v (before ++ (cs ++ after))

/-- The texts of one item or more, up to the bracket that closes the array. -/
inductive SpelledItems : List Json → List Char → Prop where
  | last {v : Json} {cs : List Char} (h : Spelled v cs) : SpelledItems [v] (cs ++ [']'])
  | cons {v : Json} {items : List Json} {cs rest : List Char} (h : Spelled v cs)
      (hitems : SpelledItems items rest) : SpelledItems (v :: items) (cs ++ ',' :: rest)

/-- The texts of one member or more, up to the brace that closes the object. -/
inductive SpelledMembers : List (String × Json) → List Char → Prop where
  | last {key : String} {v : Json} {name cs : List Char} (hkey : SpelledKey key name)
      (h : Spelled v cs) : SpelledMembers [(key, v)] (name ++ ':' :: (cs ++ ['\x7d']))
  | cons {key : String} {v : Json} {members : List (String × Json)} {name cs rest : List Char}
      (hkey : SpelledKey key name) (h : Spelled v cs) (hmembers : SpelledMembers members rest) :
      SpelledMembers ((key, v) :: members) (name ++ ':' :: (cs ++ ',' :: rest))

end

theorem spelledText_quotedChars (s : String) : SpelledText s (quotedChars s.toList) :=
  .intro (spelledChars_flatMap s.toList)

/-! ### Tokens -/

theorem scan_skip (skip rest : List Char) : scan skip.length (skip ++ rest) = scan 0 rest := by
  induction skip with
  | nil => rfl
  | cons c skip ih => exact ih

theorem scan_blank {ws : List Char} (h : Blank ws) (rest : List Char) :
    scan 0 (ws ++ rest) = scan 0 rest := by
  induction ws with
  | nil => rfl
  | cons c ws ih =>
      obtain ⟨hc, hws⟩ := List.forall_mem_cons.mp h
      rw [List.cons_append, scan, if_pos hc, ih hws]

/-- A token that is not broken, and the tokens after it. -/
theorem scan_token {c : Char} {cs rest : List Char} {token : Token} (hblank : isBlank c = false)
    (hlex : lex c (cs ++ rest) = (token, cs.length)) (hbroken : token.isBroken = false) :
    scan 0 (c :: cs ++ rest) = ⟨token, c :: (cs ++ rest)⟩ :: scan 0 rest := by
  rw [List.cons_append, scan, if_neg (Bool.eq_false_iff.mp hblank)]
  simp only [hlex, hbroken, Bool.false_eq_true, if_false]
  rw [scan_skip]

theorem scan_text {s : String} {cs : List Char} (h : SpelledText s cs) (rest : List Char) :
    ∃ source, scan 0 (cs ++ rest) = ⟨.text (.ok s), source⟩ :: scan 0 rest := by
  cases h with
  | @intro content h =>
      have hlex : lex '"' (content ++ ['"'] ++ rest) = (.text (.ok s), (content ++ ['"']).length) := by
        rw [List.append_assoc, List.singleton_append, List.length_append]
        simp only [lex, unquoted_spelledChars h rest, String.ofList_toList]
        rfl
      exact ⟨_, scan_token rfl hlex rfl⟩

/-- Whether a literal may begin with a character. -/
def BeginsNumeral (c : Char) : Prop := c = '-' ∨ c.isDigit = true

theorem BeginsNumeral.ne {c d : Char} (h : BeginsNumeral c) (hd : ¬ BeginsNumeral d) : c ≠ d := by
  rintro rfl
  exact hd h

theorem lex_of_readNumber {c : Char} {rest : List Char} {x : Binary64} {width : Nat}
    (h : BeginsNumeral c) (hread : readNumber (c :: rest) = .ok (x, width)) :
    lex c rest = (.scalar (.ok (.number x)), width - 1) := by
  have hnumeral : (decide (c = '-') || c.isDigit) = true := by simpa [BeginsNumeral] using h
  unfold lex
  split
  -- The other tokens begin with other characters.
  iterate 10 exact absurd rfl (h.ne (by simp [BeginsNumeral]))
  rw [if_pos hnumeral, hread]

theorem isBlank_of_beginsNumeral {c : Char} (h : BeginsNumeral c) : isBlank c = false := by
  have hne (d : Char) (hd : ¬ BeginsNumeral d) : decide (c = d) = false := decide_eq_false (h.ne hd)
  rw [isBlank, hne ' ' (by simp [BeginsNumeral]), hne '\t' (by simp [BeginsNumeral]),
    hne '\n' (by simp [BeginsNumeral]), hne '\r' (by simp [BeginsNumeral])]
  rfl

theorem SpelledInteger.exists_eq_cons {x : Binary64} {cs : List Char} (h : SpelledInteger x cs) :
    ∃ c tail, cs = c :: tail ∧ BeginsNumeral c := by
  cases h with
  | @intro negative rank n =>
      cases negative with
      | true => exact ⟨'-', _, rfl, Or.inl rfl⟩
      | false =>
          have hne : Decimal.digitChars n ≠ [] := Nat.toDigits_ne_nil
          obtain ⟨c, tail, hcons⟩ := List.exists_cons_of_ne_nil hne
          have hc : c ∈ Decimal.digitChars n := hcons ▸ List.mem_cons_self
          exact ⟨c, tail, hcons, Or.inr (Decimal.isDigit_of_mem_digitChars hc)⟩

theorem scan_integer {x : Binary64} {cs rest : List Char} (h : SpelledInteger x cs)
    (hrest : StopsBefore continuesNumeral rest) :
    ∃ source, scan 0 (cs ++ rest) = ⟨.scalar (.ok (.number x)), source⟩ :: scan 0 rest := by
  have hread := readNumber_integer h hrest
  obtain ⟨c, tail, rfl, hc⟩ := h.exists_eq_cons
  have hlex : lex c (tail ++ rest) = (.scalar (.ok (.number x)), tail.length) :=
    lex_of_readNumber hc hread
  exact ⟨_, scan_token (isBlank_of_beginsNumeral hc) hlex rfl⟩

/-! ### Runs -/

/-- What a run comes to from an outcome on. -/
def Outcome.resume (o : Outcome) (ls : List Lexeme) : Except Failure (Json × List Lexeme) :=
  match o with
  | .inl s => s.run ls
  | .inr v => .ok (v, ls)

theorem State.run_cons_of_step {s : State} {l : Lexeme} {o : Outcome} (h : s.step l = .ok o)
    (ls : List Lexeme) : s.run (l :: ls) = o.resume ls := by
  rw [run, h]
  cases o <;> rfl

/-- The states in which a value may begin, and the frames that it is read into. -/
inductive State.AwaitsValue : State → List Frame → Prop where
  | value {frames : List Frame} : AwaitsValue (value frames) frames
  | firstItem {frames : List Frame} : AwaitsValue (firstItem frames) (.array [] :: frames)
  | item {items : List Json} {frames : List Frame} :
      AwaitsValue (item items frames) (.array items :: frames)

theorem State.AwaitsValue.step_eq {s : State} {frames : List Frame} {l : Lexeme}
    (h : s.AwaitsValue frames) (hl : l.token ≠ .closeArray) : s.step l = beginValue l frames := by
  cases h <;> unfold step <;> split <;> simp_all

/-- The states in which a member may begin, and the object that it belongs to. -/
inductive State.AwaitsMember : State → List (String × Json) → List Frame → Prop where
  | firstKey {frames : List Frame} : AwaitsMember (firstKey frames) [] frames
  | key {members : List (String × Json)} {frames : List Frame} :
      AwaitsMember (key members frames) members frames

theorem State.AwaitsMember.step_eq {s : State} {members : List (String × Json)} {frames : List Frame}
    {l : Lexeme} (h : s.AwaitsMember members frames) (hl : l.token ≠ .closeObject) :
    s.step l = beginMember l members frames := by
  cases h <;> unfold step <;> split <;> simp_all

/-! ### Values -/

/-- Whether the reader takes a text for the value wherever the value may begin and there is room for it. -/
def Reads (v : Json) (cs : List Char) : Prop :=
  ∀ (s : State) (frames : List Frame) (rest : List Char), s.AwaitsValue frames →
    v.Within (room frames) → StopsBefore continuesNumeral rest →
    s.run (scan 0 (cs ++ rest)) = (complete v frames).resume (scan 0 rest)

/-- The same of a text of items, which go behind those that the array has already. -/
def ReadsItems (vs : List Json) (cs : List Char) : Prop :=
  ∀ (s : State) (items : List Json) (frames : List Frame) (rest : List Char),
    s.AwaitsValue (.array items :: frames) → (∀ v ∈ vs, v.Within (room (.array items :: frames))) →
    s.run (scan 0 (cs ++ rest)) = (complete (.array (items.reverse ++ vs)) frames).resume (scan 0 rest)

/-- The same of a text of members. -/
def ReadsMembers (ms : List (String × Json)) (cs : List Char) : Prop :=
  ∀ (s : State) (members : List (String × Json)) (frames : List Frame) (rest : List Char),
    s.AwaitsMember members frames → (∀ m ∈ ms, m.2.Within (room (.object members "" :: frames))) →
    s.run (scan 0 (cs ++ rest)) =
      (complete (.object (members.reverse ++ ms)) frames).resume (scan 0 rest)

theorem reads_of_token {v : Json} {cs : List Char} {token : Token} (hclose : token ≠ .closeArray)
    (hscan : ∀ rest, StopsBefore continuesNumeral rest →
      ∃ source, scan 0 (cs ++ rest) = ⟨token, source⟩ :: scan 0 rest)
    (hvalue : ∀ frames source, beginValue ⟨token, source⟩ frames = .ok (complete v frames)) :
    Reads v cs := by
  intro s frames rest hs _ hrest
  obtain ⟨source, htokens⟩ := hscan rest hrest
  rw [htokens]
  exact State.run_cons_of_step ((hs.step_eq hclose).trans (hvalue frames source)) _

theorem reads_scalar {v : Json} {cs : List Char}
    (hscan : ∀ rest, StopsBefore continuesNumeral rest →
      ∃ source, scan 0 (cs ++ rest) = ⟨.scalar (.ok v), source⟩ :: scan 0 rest) : Reads v cs :=
  reads_of_token (by simp) hscan fun _ _ => rfl

theorem reads_blanks {v : Json} {before cs after : List Char} (hbefore : Blank before)
    (h : Reads v cs) (hafter : Blank after) : Reads v (before ++ (cs ++ after)) := by
  intro s frames rest hs hv hrest
  have hstop : StopsBefore continuesNumeral (after ++ rest) := by
    cases after with
    | nil => exact hrest
    | cons c after =>
        obtain ⟨hc, -⟩ := List.forall_mem_cons.mp hafter
        refine stopsBefore_cons.mpr ?_
        simp only [isBlank, Bool.or_eq_true, decide_eq_true_eq] at hc
        rcases hc with ((rfl | rfl) | rfl) | rfl <;> rfl
  rw [List.append_assoc, List.append_assoc, scan_blank hbefore, h s frames _ hs hv hstop,
    scan_blank hafter]

/-! ### Arrays -/

theorem State.AwaitsValue.run_openArray {s : State} {frames : List Frame} (hs : s.AwaitsValue frames)
    (hopen : frames.length < nestingLimit) (rest : List Char) :
    s.run (scan 0 ('[' :: rest)) = (State.firstItem frames).run (scan 0 rest) := by
  have hstep : s.step ⟨.openArray, '[' :: rest⟩ = .ok (.inl (.firstItem frames)) := by
    rw [hs.step_eq (by simp)]
    exact if_pos hopen
  exact run_cons_of_step hstep _

theorem reads_emptyArray {ws : List Char} (hws : Blank ws) :
    Reads (array []) ('[' :: (ws ++ [']'])) := by
  intro s frames rest hs hv _
  rw [List.cons_append, hs.run_openArray hv.room_items.1, List.append_assoc, scan_blank hws]
  exact State.run_cons_of_step (l := ⟨.closeArray, ']' :: rest⟩) rfl (scan 0 rest)

theorem reads_array {items : List Json} {cs : List Char} (h : ReadsItems items cs) :
    Reads (array items) ('[' :: cs) := by
  intro s frames rest hs hv _
  obtain ⟨hopen, hitems⟩ := hv.room_items
  rw [List.cons_append, hs.run_openArray hopen]
  exact h _ [] frames rest .firstItem (hitems _)

theorem readsItems_last {v : Json} {cs : List Char} (h : Reads v cs) : ReadsItems [v] (cs ++ [']']) := by
  intro s items frames rest hs hvs
  have hread := h s _ (']' :: rest) hs (hvs v List.mem_cons_self) (stopsBefore_cons.mpr rfl)
  have hclose : (complete v (.array items :: frames)).resume (scan 0 (']' :: rest)) =
      (complete (.array (v :: items).reverse) frames).resume (scan 0 rest) :=
    State.run_cons_of_step (l := ⟨.closeArray, ']' :: rest⟩) rfl (scan 0 rest)
  rw [List.append_assoc, List.singleton_append, hread, hclose, List.reverse_cons]

theorem readsItems_cons {v : Json} {vs : List Json} {cs tail : List Char} (h : Reads v cs)
    (hvs : ReadsItems vs tail) : ReadsItems (v :: vs) (cs ++ ',' :: tail) := by
  intro s items frames rest hs hwithin
  obtain ⟨hv, htail⟩ := List.forall_mem_cons.mp hwithin
  have hread := h s _ (',' :: (tail ++ rest)) hs hv (stopsBefore_cons.mpr rfl)
  have hcomma : (complete v (.array items :: frames)).resume (scan 0 (',' :: (tail ++ rest))) =
      (State.item (v :: items) frames).run (scan 0 (tail ++ rest)) :=
    rfl
  rw [List.append_assoc, List.cons_append, hread, hcomma,
    hvs _ (v :: items) frames rest .item htail, List.reverse_cons, List.append_assoc,
    List.singleton_append]

/-! ### Objects -/

theorem State.AwaitsValue.run_openObject {s : State} {frames : List Frame} (hs : s.AwaitsValue frames)
    (hopen : frames.length < nestingLimit) (rest : List Char) :
    s.run (scan 0 ('\x7b' :: rest)) = (State.firstKey frames).run (scan 0 rest) := by
  have hstep : s.step ⟨.openObject, '\x7b' :: rest⟩ = .ok (.inl (.firstKey frames)) := by
    rw [hs.step_eq (by simp)]
    exact if_pos hopen
  exact run_cons_of_step hstep _

theorem reads_emptyObject {ws : List Char} (hws : Blank ws) :
    Reads (object []) ('\x7b' :: (ws ++ ['\x7d'])) := by
  intro s frames rest hs hv _
  rw [List.cons_append, hs.run_openObject hv.room_members.1, List.append_assoc, scan_blank hws]
  exact State.run_cons_of_step (l := ⟨.closeObject, '\x7d' :: rest⟩) rfl (scan 0 rest)

theorem reads_object {members : List (String × Json)} {cs : List Char} (h : ReadsMembers members cs) :
    Reads (object members) ('\x7b' :: cs) := by
  intro s frames rest hs hv _
  obtain ⟨hopen, hmembers⟩ := hv.room_members
  rw [List.cons_append, hs.run_openObject hopen]
  exact h _ [] frames rest .firstKey (hmembers _)

/-- A key and its colon lead to where the value of the member begins. -/
theorem State.AwaitsMember.run_key {s : State} {members : List (String × Json)} {frames : List Frame}
    {key : String} {name : List Char} (hs : s.AwaitsMember members frames) (h : SpelledKey key name)
    (rest : List Char) :
    s.run (scan 0 (name ++ ':' :: rest)) =
      (State.value (.object members key :: frames)).run (scan 0 rest) := by
  cases h with
  | @intro before cs after hbefore h hafter =>
      obtain ⟨source, htext⟩ := scan_text h (after ++ ':' :: rest)
      have hstep : s.step ⟨.text (.ok key), source⟩ = .ok (.inl (colon members key frames)) :=
        hs.step_eq (by simp)
      have hcolon : (colon members key frames).run (scan 0 (':' :: rest)) =
          (State.value (.object members key :: frames)).run (scan 0 rest) := rfl
      rw [List.append_assoc, List.append_assoc, scan_blank hbefore, htext, run_cons_of_step hstep,
        scan_blank hafter]
      exact hcolon

theorem readsMembers_last {key : String} {v : Json} {name cs : List Char}
    (hkey : SpelledKey key name) (h : Reads v cs) :
    ReadsMembers [(key, v)] (name ++ ':' :: (cs ++ ['\x7d'])) := by
  intro s members frames rest hs hms
  have hread := h _ (.object members key :: frames) ('\x7d' :: rest) .value
    (hms (key, v) List.mem_cons_self) (stopsBefore_cons.mpr rfl)
  have hclose : (complete v (.object members key :: frames)).resume (scan 0 ('\x7d' :: rest)) =
      (complete (.object ((key, v) :: members).reverse) frames).resume (scan 0 rest) :=
    State.run_cons_of_step (l := ⟨.closeObject, '\x7d' :: rest⟩) rfl (scan 0 rest)
  rw [List.append_assoc, List.cons_append, hs.run_key hkey, List.append_assoc, List.singleton_append,
    hread, hclose, List.reverse_cons]

theorem readsMembers_cons {key : String} {v : Json} {ms : List (String × Json)}
    {name cs tail : List Char} (hkey : SpelledKey key name) (h : Reads v cs)
    (hms : ReadsMembers ms tail) : ReadsMembers ((key, v) :: ms) (name ++ ':' :: (cs ++ ',' :: tail)) := by
  intro s members frames rest hs hwithin
  obtain ⟨hv, htail⟩ := List.forall_mem_cons.mp hwithin
  have hread := h _ (.object members key :: frames) (',' :: (tail ++ rest)) .value hv
    (stopsBefore_cons.mpr rfl)
  have hcomma : (complete v (.object members key :: frames)).resume (scan 0 (',' :: (tail ++ rest))) =
      (State.key ((key, v) :: members) frames).run (scan 0 (tail ++ rest)) :=
    rfl
  rw [List.append_assoc, List.cons_append, hs.run_key hkey, List.append_assoc, List.cons_append, hread,
    hcomma, hms _ ((key, v) :: members) frames rest .key htail, List.reverse_cons, List.append_assoc,
    List.singleton_append]

/-! ### The grammar -/

mutual

/-- Every text of a value is read as the value. -/
theorem Spelled.reads {v : Json} {cs : List Char} : Spelled v cs → Reads v cs
  | .null | .true | .false => reads_scalar fun _ _ => ⟨_, scan_token rfl rfl rfl⟩
  | .integer h => reads_scalar fun _ hrest => scan_integer h hrest
  | .text h => reads_of_token (by simp) (fun rest _ => scan_text h rest) fun _ _ => rfl
  | .emptyArray h => reads_emptyArray h
  | .array h => reads_array h.reads
  | .emptyObject h => reads_emptyObject h
  | .object h => reads_object h.reads
  | .blanks hbefore h hafter => reads_blanks hbefore h.reads hafter

theorem SpelledItems.reads {vs : List Json} {cs : List Char} : SpelledItems vs cs → ReadsItems vs cs
  | .last h => readsItems_last h.reads
  | .cons h hitems => readsItems_cons h.reads hitems.reads

theorem SpelledMembers.reads {ms : List (String × Json)} {cs : List Char} :
    SpelledMembers ms cs → ReadsMembers ms cs
  | .last hkey h => readsMembers_last hkey h.reads
  | .cons hkey h hmembers => readsMembers_cons hkey h.reads hmembers.reads

end

/-- The value of a text is read whatever follows it, unless this goes on with a number. -/
theorem run_of_spelled {v : Json} {cs rest : List Char} (h : Spelled v cs)
    (hv : v.Within nestingLimit) (hrest : StopsBefore continuesNumeral rest) :
    (State.value []).run (scan 0 (cs ++ rest)) = .ok (v, scan 0 rest) :=
  h.reads _ [] rest .value hv hrest

theorem read_of_spelled {v : Json} {cs : List Char} (h : Spelled v cs) (hv : v.Within nestingLimit) :
    read cs = .ok (v, []) := by
  have hend : StopsBefore continuesNumeral [] := by simp [StopsBefore]
  have hrun := run_of_spelled h hv hend
  rwa [List.append_nil] at hrun

end Json
end SheetFormula

import SheetFormula.Proofs.Text.Prefix
import SheetFormula.Proofs.Text.Quoted

/-! Strings and brackets in a text. A scanner goes through the text from left to right and keeps the brackets
that are open; in a string it keeps them as they are, and a backslash there takes the next character.
What it does with a part of a text does not depend on the brackets around the part
(`Scanner.run_under`), so texts that are closed by themselves can be put together, into brackets and
into strings, and a list of them can be cut again at its commas (`cut_intercalate`). -/

namespace SheetFormula

inductive Bracket where
  | paren | square | brace
  deriving DecidableEq

namespace Bracket

def opening : Bracket → Char
  | paren => '('
  | square => '['
  | brace => '\x7b'

def closing : Bracket → Char
  | paren => ')'
  | square => ']'
  | brace => '\x7d'

def opened? : Char → Option Bracket
  | '(' => some paren
  | '[' => some square
  | '\x7b' => some brace
  | _ => none

def closed? : Char → Option Bracket
  | ')' => some paren
  | ']' => some square
  | '\x7d' => some brace
  | _ => none

end Bracket

/-- Where a scanner is, with the brackets that are open there, the innermost first. -/
inductive Scanner where
  | outside (stack : List Bracket)
  | quoted (stack : List Bracket)
  /-- Behind a backslash in a string. -/
  | escaped (stack : List Bracket)
  /-- Behind a bracket that closes none, or another one than it should. -/
  | broken
  deriving DecidableEq

namespace Scanner

def step : Scanner → Char → Scanner
  | outside stack, c =>
    if c = '"' then quoted stack
    else match Bracket.opened? c, Bracket.closed? c, stack with
      | some b, _, _ => outside (b :: stack)
      | none, some b, inner :: outer => if b = inner then outside outer else broken
      | none, some _, [] => broken
      | none, none, _ => outside stack
  | quoted stack, c =>
    if c = '"' then outside stack else if c = '\\' then escaped stack else quoted stack
  | escaped stack, _ => quoted stack
  | broken, _ => broken

def run (s : Scanner) (cs : List Char) : Scanner := cs.foldl step s

variable {s : Scanner} {stack : List Bracket} {c : Char} {cs ds : List Char}

@[simp] theorem run_nil (s : Scanner) : s.run [] = s := rfl

@[simp] theorem run_cons (s : Scanner) (c : Char) (cs : List Char) :
    s.run (c :: cs) = (s.step c).run cs := rfl

theorem run_append (s : Scanner) (cs ds : List Char) : s.run (cs ++ ds) = (s.run cs).run ds :=
  List.foldl_append

theorem run_broken (cs : List Char) : broken.run cs = broken := by
  induction cs with
  | nil => rfl
  | cons c cs ih => exact ih

theorem run_ne_broken_of_append (h : s.run (cs ++ ds) ≠ broken) : s.run cs ≠ broken := by
  intro hbroken
  rw [run_append, hbroken, run_broken] at h
  exact h rfl

/-! ### Brackets around a text -/

/-- The same place in a text with brackets around it. -/
def under (stack : List Bracket) : Scanner → Scanner
  | outside inner => outside (inner ++ stack)
  | quoted inner => quoted (inner ++ stack)
  | escaped inner => escaped (inner ++ stack)
  | broken => broken

theorem under_eq_outside_iff : s.under stack = outside stack ↔ s = outside [] := by
  cases s <;> simp [under]

theorem under_cons_ne_outside (b : Bracket) : s.under [b] ≠ outside [] := by
  cases s <;> simp [under]

theorem step_under (h : s.step c ≠ broken) (stack : List Bracket) :
    (s.under stack).step c = (s.step c).under stack := by
  cases s with
  | outside inner =>
      by_cases hquote : c = '"'
      · rw [hquote]
        rfl
      simp only [under, step, if_neg hquote] at h ⊢
      generalize Bracket.opened? c = opened?, Bracket.closed? c = closed? at h ⊢
      cases opened? with
      | some b => rfl
      | none =>
          cases closed? with
          | none => rfl
          | some b =>
              cases inner with
              | nil => exact absurd rfl h
              | cons b' inner => by_cases hb : b = b' <;> simp_all
  | quoted inner =>
      by_cases hquote : c = '"'
      · simp [under, step, hquote]
      · by_cases hbackslash : c = '\\' <;> simp [under, step, hquote, hbackslash]
  | escaped | broken => rfl

/-- What is done with a text that breaks nothing does not depend on the brackets around it. A text that
breaks something may be mended by them, so this does not hold of all texts. -/
theorem run_under (h : s.run cs ≠ broken) (stack : List Bracket) :
    (s.under stack).run cs = (s.run cs).under stack := by
  induction cs generalizing s with
  | nil => rfl
  | cons c cs ih =>
      have hfirst : s.run ([c] ++ cs) ≠ broken := h
      have hstep : s.step c ≠ broken := run_ne_broken_of_append hfirst
      rw [run_cons, step_under hstep, ih h, run_cons]

/-! ### Commas -/

/-- Whether no comma stands outside of strings in just the given brackets. -/
def NoComma (stack : List Bracket) (s : Scanner) (cs : List Char) : Prop :=
  ∀ before after, cs = before ++ ',' :: after → s.run before ≠ outside stack

theorem noComma_nil (stack : List Bracket) (s : Scanner) : NoComma stack s [] := by
  intro before after h
  simp at h

theorem noComma_cons :
    NoComma stack s (c :: cs) ↔ (c = ',' → s ≠ outside stack) ∧ NoComma stack (s.step c) cs := by
  constructor
  · intro h
    refine ⟨fun hc => h [] cs (by rw [hc]; rfl), fun before after hcs => ?_⟩
    exact h (c :: before) after (by rw [hcs]; rfl)
  · rintro ⟨hc, hcs⟩ before after h
    cases before with
    | nil => exact hc (List.head_eq_of_cons_eq h)
    | cons d before =>
        obtain ⟨rfl, htail⟩ := List.cons_eq_cons.mp h
        exact hcs before after htail

/-- A comma behind a part of a text without one. -/
theorem NoComma.exists_append (h : NoComma stack s cs) {before after : List Char}
    (heq : cs ++ ds = before ++ ',' :: after) (hrun : s.run before = outside stack) :
    ∃ middle, before = cs ++ middle ∧ ds = middle ++ ',' :: after := by
  rcases List.append_eq_append_iff.mp heq with ⟨middle, hbefore, hds⟩ | ⟨middle, hcs, hafter⟩
  · exact ⟨middle, hbefore, hds⟩
  · cases middle with
    | nil =>
        rw [List.append_nil] at hcs
        exact ⟨[], by rw [hcs, List.append_nil], hafter.symm⟩
    | cons d middle =>
        obtain ⟨rfl, -⟩ := List.cons_eq_cons.mp hafter
        exact absurd hrun (h before middle hcs)

theorem NoComma.append (h : NoComma stack s cs) (h' : NoComma stack (s.run cs) ds) :
    NoComma stack s (cs ++ ds) := by
  intro before after heq hrun
  obtain ⟨middle, rfl, hds⟩ := h.exists_append heq hrun
  rw [run_append] at hrun
  exact h' middle after hds hrun

/-! ### Strings -/

/-- What may stand between quotes: backslashes take the next character, and no other quote is there. -/
inductive Content : List Char → Prop where
  | nil : Content []
  | plain {c : Char} {cs : List Char} (hquote : c ≠ '"') (hbackslash : c ≠ '\\') (h : Content cs) :
      Content (c :: cs)
  | escape {c : Char} {cs : List Char} (h : Content cs) : Content ('\\' :: c :: cs)

theorem Content.append (h : Content cs) (h' : Content ds) : Content (cs ++ ds) := by
  induction h with
  | nil => exact h'
  | plain hquote hbackslash _ ih => exact .plain hquote hbackslash ih
  | escape _ ih => exact .escape ih

theorem content_of_notMem (hquote : '"' ∉ cs) (hbackslash : '\\' ∉ cs) : Content cs := by
  induction cs with
  | nil => exact .nil
  | cons c cs ih =>
      rw [List.mem_cons, not_or] at hquote hbackslash
      exact .plain (Ne.symm hquote.1) (Ne.symm hbackslash.1) (ih hquote.2 hbackslash.2)

theorem content_of_hexNumber {n : Nat} (h : Json.HexNumber n cs) : Content cs := by
  have hall : '"' ∉ Json.hexDigits ∧ '\\' ∉ Json.hexDigits := by decide
  exact content_of_notMem (mt (h.mem_hexDigits _) hall.1) (mt (h.mem_hexDigits _) hall.2)

theorem content_of_spelledChars {t : List Char} (h : Json.SpelledChars t cs) : Content cs := by
  induction h with
  | nil => exact .nil
  | cons h _ ih =>
      refine Content.append ?_ ih
      cases h with
      | plain hquote hbackslash => exact .plain hquote hbackslash .nil
      | short => exact .escape .nil
      | numeric h => exact .escape (content_of_hexNumber h)
      | surrogates _ _ _ hhighs hlows =>
          exact .escape ((content_of_hexNumber hhighs).append (.escape (content_of_hexNumber hlows)))

theorem Content.run_eq (h : Content cs) : (quoted stack).run cs = quoted stack := by
  induction h with
  | nil => rfl
  | plain hquote hbackslash _ ih => rwa [run_cons, step, if_neg hquote, if_neg hbackslash]
  | escape _ ih => exact ih

theorem Content.noComma (h : Content cs) : NoComma stack (quoted stack) cs := by
  induction h with
  | nil => exact noComma_nil _ _
  | plain hquote hbackslash _ ih =>
      rw [noComma_cons, step, if_neg hquote, if_neg hbackslash]
      exact ⟨nofun, ih⟩
  | escape _ ih => exact noComma_cons.mpr ⟨nofun, noComma_cons.mpr ⟨nofun, ih⟩⟩

/-! ### Closed texts -/

/-- Whether a text leaves no string open, and its brackets are closed in their order. -/
def Balanced (cs : List Char) : Prop := (outside []).run cs = outside []

/-- A balanced text without a comma outside of all strings and brackets. -/
structure Closed (cs : List Char) : Prop where
  balanced : Balanced cs
  noComma : NoComma [] (outside []) cs

theorem Balanced.ne_broken (h : Balanced cs) : (outside []).run cs ≠ broken := by
  rw [Balanced] at h
  rw [h]
  nofun

theorem Balanced.run_eq (h : Balanced cs) (stack : List Bracket) :
    (outside stack).run cs = outside stack := by
  have hunder := run_under h.ne_broken stack
  rw [Balanced] at h
  rwa [h] at hunder

theorem Balanced.append (h : Balanced cs) (h' : Balanced ds) : Balanced (cs ++ ds) := by
  rw [Balanced] at h
  rwa [Balanced, run_append, h]

/-- Within the brackets around a balanced text there is no comma outside of them. -/
theorem Balanced.noComma_under (h : Balanced cs) (b : Bracket) : NoComma [] (outside [b]) cs := by
  rintro before after rfl
  have hunder := run_under (run_ne_broken_of_append h.ne_broken) [b]
  exact hunder ▸ under_cons_ne_outside b

theorem Closed.noComma_under (h : Closed cs) (stack : List Bracket) :
    NoComma stack (outside stack) cs := by
  rintro before after rfl
  have hunder := run_under (run_ne_broken_of_append h.balanced.ne_broken) stack
  have hbefore := h.noComma before after rfl
  exact hunder ▸ mt under_eq_outside_iff.mp hbefore

theorem closed_nil : Closed [] := ⟨rfl, noComma_nil _ _⟩

theorem Closed.append (h : Closed cs) (h' : Closed ds) : Closed (cs ++ ds) := by
  have hds : NoComma [] ((outside []).run cs) ds := by
    rw [show (outside []).run cs = outside [] from h.balanced]
    exact h'.noComma
  exact ⟨h.balanced.append h'.balanced, h.noComma.append hds⟩

/-- The quote, the comma and the brackets. -/
def delimiters : List Char := ['"', ',', '(', ')', '[', ']', '\x7b', '\x7d']

/-- Whether a scanner passes over a character outside of strings. -/
def isOrdinary (c : Char) : Bool := c ∉ delimiters

theorem step_of_isOrdinary (h : isOrdinary c = true) : (outside stack).step c = outside stack := by
  simp only [isOrdinary, delimiters, decide_eq_true_eq, List.mem_cons, List.not_mem_nil, or_false,
    not_or] at h
  have hopened : Bracket.opened? c = none := by
    unfold Bracket.opened?
    split <;> simp_all
  have hclosed : Bracket.closed? c = none := by
    unfold Bracket.closed?
    split <;> simp_all
  simp only [step, if_neg h.1, hopened, hclosed]

theorem closed_of_isOrdinary (h : cs.all isOrdinary = true) : Closed cs := by
  induction cs with
  | nil => exact closed_nil
  | cons c cs ih =>
      rw [List.all_cons, Bool.and_eq_true] at h
      obtain ⟨hc, hcs⟩ := h
      have hcomma : c ≠ ',' := by
        rintro rfl
        cases hc
      refine ⟨?_, noComma_cons.mpr ⟨fun h => absurd h hcomma, ?_⟩⟩
      · rw [Balanced, run_cons, step_of_isOrdinary hc]
        exact (ih hcs).balanced
      · rw [step_of_isOrdinary hc]
        exact (ih hcs).noComma

theorem closed_quoted (h : Content cs) : Closed ('"' :: (cs ++ ['"'])) := by
  have hrun : (quoted []).run (cs ++ ['"']) = outside [] := by
    rw [run_append, h.run_eq]
    rfl
  have hclose : NoComma [] ((quoted []).run cs) ['"'] := noComma_cons.mpr ⟨nofun, noComma_nil _ _⟩
  exact ⟨hrun, noComma_cons.mpr ⟨nofun, h.noComma.append hclose⟩⟩

/-- A quoted text is closed, whatever the text is. -/
theorem closed_quotedChars (t : List Char) : Closed (Json.quotedChars t) :=
  closed_quoted (content_of_spelledChars (Json.spelledChars_flatMap t))

theorem step_opening (b : Bracket) : (outside stack).step b.opening = outside (b :: stack) := by
  cases b <;> rfl

theorem step_closing (b : Bracket) : (outside (b :: stack)).step b.closing = outside stack := by
  cases b <;> rfl

theorem Balanced.closed_bracketed (h : Balanced cs) (b : Bracket) :
    Closed (b.opening :: (cs ++ [b.closing])) := by
  have hopening : b.opening ≠ ',' := by cases b <;> decide
  have hclosing : b.closing ≠ ',' := by cases b <;> decide
  have hclose : NoComma [] ((outside [b]).run cs) [b.closing] :=
    noComma_cons.mpr ⟨fun h => absurd h hclosing, noComma_nil _ _⟩
  refine ⟨?_, noComma_cons.mpr ⟨fun h => absurd h hopening, ?_⟩⟩
  · rw [Balanced, run_cons, step_opening, run_append, h.run_eq, run_cons, step_closing, run_nil]
  · rw [step_opening]
    exact (h.noComma_under b).append hclose

theorem Balanced.intercalate {separator : List Char} {texts : List (List Char)}
    (hseparator : Balanced separator) (h : ∀ cs ∈ texts, Balanced cs) :
    Balanced (separator.intercalate texts) :=
  intercalate_of_append (P := Balanced) rfl (fun _ _ => Balanced.append) hseparator h

theorem Closed.intercalate {separator : List Char} {texts : List (List Char)}
    (hseparator : Closed separator) (h : ∀ cs ∈ texts, Closed cs) :
    Closed (separator.intercalate texts) :=
  intercalate_of_append closed_nil (fun _ _ => Closed.append) hseparator h

/-! ### Cutting at commas -/

/-- The pieces of a text between the commas that stand outside of strings in just the given brackets, each
comma with the space behind it. -/
def cut (stack : List Bracket) (s : Scanner) : List Char → List (List Char)
  | [] => [[]]
  | ',' :: ' ' :: cs =>
    if s = outside stack then [] :: cut stack s cs
    else (cut stack (s.step ',') (' ' :: cs)).modifyHead (',' :: ·)
  | c :: cs => (cut stack (s.step c) cs).modifyHead (c :: ·)

theorem cut_cons (h : c = ',' → s ≠ outside stack) :
    s.cut stack (c :: cs) = ((s.step c).cut stack cs).modifyHead (c :: ·) := by
  conv => lhs; unfold cut
  split
  next heq => cases heq
  next heq =>
    cases heq
    rw [if_neg (h rfl)]
  next heq =>
    cases heq
    rfl

theorem cut_append (h : NoComma stack s cs) (ds : List Char) :
    s.cut stack (cs ++ ds) = ((s.run cs).cut stack ds).modifyHead (cs ++ ·) := by
  induction cs generalizing s with
  | nil =>
      rw [List.nil_append, run_nil]
      cases s.cut stack ds <;> rfl
  | cons c cs ih =>
      obtain ⟨hc, hcs⟩ := noComma_cons.mp h
      rw [List.cons_append, cut_cons hc, ih hcs, List.modifyHead_modifyHead]
      rfl

/-- A list of closed texts is cut into these texts. -/
theorem cut_intercalate {texts : List (List Char)} (hne : texts ≠ []) (h : ∀ cs ∈ texts, Closed cs)
    (stack : List Bracket) : (outside stack).cut stack ([',', ' '].intercalate texts) = texts := by
  induction texts with
  | nil => exact absurd rfl hne
  | cons cs texts ih =>
      obtain ⟨hcs, htexts⟩ := List.forall_mem_cons.mp h
      have hcut := cut_append (hcs.noComma_under stack)
      rw [hcs.balanced.run_eq] at hcut
      cases texts with
      | nil =>
          have hnil := hcut []
          simpa [cut] using hnil
      | cons ds texts =>
          have hrest := ih (by simp) htexts
          rw [List.intercalate_cons_of_ne_nil (by simp), List.append_assoc, hcut]
          simp [cut, hrest]

/-- Whether a text begins with something else than a space. -/
def Begins (cs : List Char) : Prop := ∃ c rest, cs = c :: rest ∧ c ≠ ' '

theorem begins_of_notMem (hne : cs ≠ []) (hspace : ' ' ∉ cs) : Begins cs := by
  obtain ⟨c, rest, rfl⟩ := List.exists_cons_of_ne_nil hne
  exact ⟨c, rest, rfl, fun hc => hspace (hc ▸ List.mem_cons_self)⟩

theorem Begins.append (h : Begins cs) (ds : List Char) : Begins (cs ++ ds) := by
  obtain ⟨c, rest, rfl, hc⟩ := h
  exact ⟨c, rest ++ ds, rfl, hc⟩

theorem Begins.intercalate (h : Begins cs) (separator : List Char) (texts : List (List Char)) :
    Begins (separator.intercalate (cs :: texts)) := by
  cases texts with
  | nil => simpa using h
  | cons ds texts =>
      rw [List.intercalate_cons_of_ne_nil (by simp), List.append_assoc]
      exact h.append _

/-- Behind each comma between closed texts there is one space, if no text begins with one. -/
theorem space_of_intercalate {texts : List (List Char)} (h : ∀ cs ∈ texts, Closed cs)
    (hbegins : ∀ cs ∈ texts, Begins cs) {before after : List Char}
    (heq : [',', ' '].intercalate texts = before ++ ',' :: after)
    (hrun : (outside stack).run before = outside stack) :
    ∃ c rest, after = ' ' :: c :: rest ∧ c ≠ ' ' := by
  induction texts generalizing before with
  | nil => simp at heq
  | cons cs texts ih =>
      obtain ⟨hcs, htexts⟩ := List.forall_mem_cons.mp h
      obtain ⟨-, hbegins⟩ := List.forall_mem_cons.mp hbegins
      have hcomma := hcs.noComma_under stack
      cases texts with
      | nil =>
          rw [List.intercalate_singleton] at heq
          exact absurd hrun (hcomma before after heq)
      | cons ds texts =>
          rw [List.intercalate_cons_of_ne_nil (by simp), List.append_assoc] at heq
          obtain ⟨middle, rfl, hmiddle⟩ := hcomma.exists_append heq hrun
          rw [run_append, hcs.balanced.run_eq] at hrun
          rcases middle with - | ⟨c, - | ⟨d, middle⟩⟩
          · have hds := hbegins ds List.mem_cons_self
            obtain ⟨c, rest, hrest, hc⟩ := hds.intercalate [',', ' '] texts
            exact ⟨c, rest, (List.tail_eq_of_cons_eq hmiddle).symm.trans (hrest ▸ rfl), hc⟩
          · cases List.tail_eq_of_cons_eq hmiddle
          · obtain ⟨hc, hmiddle⟩ := List.cons_eq_cons.mp hmiddle
            obtain ⟨hd, hmiddle⟩ := List.cons_eq_cons.mp hmiddle
            rw [← hc, ← hd] at hrun
            exact ih htexts hbegins hmiddle hrun

end Scanner

end SheetFormula

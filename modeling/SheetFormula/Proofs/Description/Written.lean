import SheetFormula.Proofs.Description.FirstFit
import SheetFormula.Proofs.Json.Spelling

/-! Descriptions as they are written. A literal is an object with one member, and a call an object with
the name of the function and the array of its arguments, which may be left out if there are none. Read back,
the value is the same description, up to the signs of zeros: each object has the keys of one description
only, so no other one fits before it. -/

namespace SheetFormula
namespace Description

/-- The values that a description is written as. A number may be written as any that is equal to it. -/
inductive Written : Description → Json → Prop where
  | text {value : String} : Written (.text value) (.object [("text", .string value)])
  | number {x y : Binary64} (h : x.numEq y = true) :
      Written (.number x) (.object [("number", .number y)])
  | field {name : String} : Written (.field name) (.object [("field", .string name)])
  | call {op : String} {arguments : List Description} {items : List Json}
      (h : List.Forall₂ Written arguments items) :
      Written (.call op arguments) (.object [("op", .string op), ("args", .array items)])
  | constant {op : String} : Written (.call op []) (.object [("op", .string op)])

/-- Equality of descriptions, with numbers compared as numbers. -/
inductive Same : Description → Description → Prop where
  | text {value : String} : Same (.text value) (.text value)
  | number {x y : Binary64} (h : x.numEq y = true) : Same (.number x) (.number y)
  | field {name : String} : Same (.field name) (.field name)
  | call {op : String} {ds ds' : List Description} (h : List.Forall₂ Same ds ds') :
      Same (.call op ds) (.call op ds')

theorem exists_forall₂_firstFit {ds : List Description} {items : List Json}
    (h : List.Forall₂ (fun d item => ∃ d', item.FirstFit d' ∧ d.Same d') ds items) :
    ∃ ds', List.Forall₂ Json.FirstFit items ds' ∧ List.Forall₂ Same ds ds' := by
  induction h with
  | nil => exact ⟨[], .nil, .nil⟩
  | cons h _ ih =>
      obtain ⟨d', hfit, hsame⟩ := h
      obtain ⟨ds', hfits, hsames⟩ := ih
      exact ⟨d' :: ds', .cons hfit hfits, .cons hsame hsames⟩

/-- What a description is written as fits this description first. -/
theorem Written.exists_firstFit {d : Description} {v : Json} (h : d.Written v) :
    ∃ d', v.FirstFit d' ∧ d.Same d' := by
  induction d using Description.induction generalizing v with
  | text value =>
      cases h
      exact ⟨_, .text rfl, .text⟩
  | number x =>
      cases h with
      | number h => exact ⟨_, .number nofun rfl, .number h⟩
  | field name =>
      cases h
      exact ⟨_, .field nofun nofun rfl, .field⟩
  | call op ds ih =>
      cases h with
      | @call _ _ items h =>
          have hitems : List.Forall₂ (fun d item => ∃ d', item.FirstFit d' ∧ d.Same d') ds items := by
            rw [List.forall₂_iff_zip] at h ⊢
            exact ⟨h.1, fun hmem => ih _ (List.of_mem_zip hmem).1 (h.2 hmem)⟩
          obtain ⟨ds', hfits, hsame⟩ := exists_forall₂_firstFit hitems
          exact ⟨.call op ds', .call ⟨nofun, nofun, nofun⟩ rfl rfl hfits, .call hsame⟩
      | constant => exact ⟨.call op [], .constant ⟨nofun, nofun, nofun⟩ rfl rfl, .call .nil⟩

/-- A description can be read back from every text of every value that it is written as: with any
spelling of the texts and keys and any blanks, if the numbers are integers of at most 2⁵³ in
magnitude and no more arrays and objects are nested than the reader takes. -/
theorem parse_of_written {d : Description} {v : Json} {source : String} (hd : d.Written v)
    (hv : v.Within Json.nestingLimit) (hsource : v.Spelled source.toList) :
    ∃ d', parse source = .ok d' ∧ d.Same d' := by
  obtain ⟨d', hfit, hsame⟩ := hd.exists_firstFit
  have hparse := parse_eq_of_read (Json.read_of_spelled hsource hv)
  rw [Json.describe?_eq_some_iff.mpr hfit] at hparse
  exact ⟨d', hparse, hsame⟩

/-- An escaped key, a text in surrogates, a zero of the other sign and a call without arguments, with blanks
in between. -/
theorem parse_of_escapes_and_blanks :
    let source := "\t\x7b \"\\u006fp\" :\"LEN\",\"args\":[\x7b\"text\":\"\\uD83d\\uDE00\\n\"\x7d,\n" ++
      "\x7b\"number\":-0\x7d , \x7b\"op\":\"BLANK\"\x7d]\x7d\r\n"
    let text : Json := .object [("text", .string "😀\n")]
    let zero : Json := .object [("number", .number (.ofBits 0x8000000000000000))]
    let blank : Json := .object [("op", .string "BLANK")]
    let v : Json := .object [("op", .string "LEN"), ("args", .array [text, zero, blank])]
    let d : Description := .call "LEN" [.text "😀\n", .number (.ofBits 0), .call "BLANK" []]
    d.Written v ∧ v.Within Json.nestingLimit ∧ v.Spelled source.toList ∧
      ∃ d', parse source = .ok d' ∧ d.Same d' := by
  intro source text zero blank v d
  have hwritten : d.Written v := .call (.cons .text (.cons (.number rfl) (.cons .constant .nil)))
  have hwithin : v.Within Json.nestingLimit := by
    have hmember (key : String) {n : Nat} {v : Json} (h : v.Within n) :
        Json.Within (n + 1) (.object [(key, v)]) := .object (List.forall_mem_singleton.mpr h)
    have hitems : ∀ item ∈ [text, zero, blank], item.Within 125 := by
      simp only [List.forall_mem_cons]
      exact ⟨hmember _ .string, hmember _ (.number rfl), hmember _ .string, nofun⟩
    refine .object ?_
    simp only [List.forall_mem_cons]
    exact ⟨.string, .array hitems, nofun⟩
  have hkey (key : String) : Json.SpelledKey key _ :=
    @Json.SpelledKey.intro _ [] _ [] nofun (Json.spelledText_quotedChars key) nofun
  have hstring (s : String) : Json.Spelled (.string s) _ := .text (Json.spelledText_quotedChars s)
  have ho : Json.HexNumber 'o'.toNat ['0', '0', '6', 'f'] :=
    @Json.HexNumber.intro 0 0 6 15 _ _ _ _ (.lower (by decide)) (.lower (by decide))
      (.lower (by decide)) (.lower (by decide))
  have hop : Json.SpelledKey "op" _ := @Json.SpelledKey.intro _ [' '] _ [' '] (by decide)
    (.intro (.cons (.numeric ho) (Json.spelledChars_flatMap ['p']))) (by decide)
  have hhigh : Json.HexNumber (0xD800 + 0x3D) ['D', '8', '3', 'd'] :=
    @Json.HexNumber.intro 13 8 3 13 _ _ _ _ (.upper (by decide)) (.lower (by decide))
      (.lower (by decide)) (.lower (by decide))
  have hlow : Json.HexNumber (0xDC00 + 0x200) ['D', 'E', '0', '0'] :=
    @Json.HexNumber.intro 13 14 0 0 _ _ _ _ (.upper (by decide)) (.upper (by decide))
      (.lower (by decide)) (.lower (by decide))
  have hpair : Json.SpelledChar '😀' _ := .surrogates (by decide) (by decide) rfl hhigh hlow
  have htext : text.Spelled _ := .object (.last (hkey "text")
    (.text (.intro (.cons hpair (Json.spelledChars_flatMap ['\n'])))))
  have hunits : Binary64.units 0 = 0 * Binary64.one := by
    rw [Nat.zero_mul]
    rfl
  have hnumber : Json.SpelledInteger (.ofBits 0x8000000000000000) ['-', '0'] :=
    @Json.SpelledInteger.intro true ⟨0, by decide⟩ 0 hunits (by decide)
  have hzero : zero.Spelled _ := @Json.Spelled.blanks _ ['\n'] _ [' '] (by decide)
    (.object (.last (hkey "number") (.integer hnumber))) (by decide)
  have hblank : blank.Spelled _ :=
    @Json.Spelled.blanks _ [' '] _ [] (by decide) (.object (.last (hkey "op") (hstring "BLANK"))) nofun
  have hsource : v.Spelled source.toList := by
    dsimp only [source]
    exact @Json.Spelled.blanks _ ['\t'] _ ['\r', '\n'] (by decide)
      (.object (.cons hop (hstring "LEN")
        (.last (hkey "args") (.array (.cons htext (.cons hzero (.last hblank))))))) (by decide)
  exact ⟨hwritten, hwithin, hsource, parse_of_written hwritten hwithin hsource⟩

end Description
end SheetFormula

import SheetFormula.Proofs.Text.Spelling

/-! Quoted texts read back. The quoted form of a text is one of its spellings: each character stands for
itself, or has a short escape, or is a control character and escaped by its number. So a quoted text
ends at its closing quote whatever follows, and shows which text it quotes. -/

namespace SheetFormula
namespace Json

theorem hexNumber_of_lt {n : Nat} (h : n < 32) :
    HexNumber n ['0', '0', hexDigit (n / 16), hexDigit (n % 16)] := by
  have hzero : HexDigit 0 '0' := .lower (by decide)
  have hhigh : HexDigit (n / 16) (hexDigit (n / 16)) := .lower (by omega)
  have hlow : HexDigit (n % 16) (hexDigit (n % 16)) := .lower (by omega)
  have hn : 0 * 4096 + 0 * 256 + n / 16 * 16 + n % 16 = n := by omega
  have hnumber := HexNumber.intro hzero hzero hhigh hlow
  rwa [hn] at hnumber

/-- The quoted form of a character is one of its spellings. -/
theorem spelledChar_escapeChar (c : Char) : SpelledChar c (escapeChar c) := by
  by_cases hshort : c ∈ ['"', '\\', '\x08', '\x0c', '\n', '\r', '\t']
  · obtain ⟨letter, hescape, hletter⟩ :
        ∃ letter, escapeChar c = ['\\', letter] ∧ (c, letter) ∈ shortEscapes := by
      simp only [List.mem_cons, List.not_mem_nil, or_false] at hshort
      rcases hshort with rfl | rfl | rfl | rfl | rfl | rfl | rfl <;> exact ⟨_, rfl, by decide⟩
    rw [hescape]
    exact .short hletter
  · simp only [List.mem_cons, List.not_mem_nil, or_false, not_or] at hshort
    obtain ⟨hquote, hbackslash, h8, hc, hn, hr, ht⟩ := hshort
    by_cases hcontrol : c < ' '
    · have hescape : escapeChar c =
          '\\' :: 'u' :: ['0', '0', hexDigit (c.toNat / 16), hexDigit (c.toNat % 16)] := by
        simp [escapeChar, *]
      rw [hescape]
      exact .numeric (hexNumber_of_lt hcontrol)
    · have hescape : escapeChar c = [c] := by simp [escapeChar, *]
      rw [hescape]
      exact .plain hquote hbackslash hcontrol

theorem spelledChars_flatMap (t : List Char) : SpelledChars t (t.flatMap escapeChar) := by
  induction t with
  | nil => exact .nil
  | cons c t ih => exact .cons (spelledChar_escapeChar c) ih

theorem toList_quoteAll (parts : List String) : (quoteAll parts).toList =
    '[' :: ([','].intercalate (parts.map fun part => quotedChars part.toList) ++ [']']) := by
  simp [quoteAll, quote, String.toList_intercalate, Function.comp_def]

theorem quotedChars_append_inj {t u r s : List Char} (h : quotedChars t ++ r = quotedChars u ++ s) :
    t = u ∧ r = s := by
  have hcontent : t.flatMap escapeChar ++ '"' :: r = u.flatMap escapeChar ++ '"' :: s := by
    simpa [quotedChars] using h
  have hread := (unquoted_spelledChars (spelledChars_flatMap t) r).symm.trans
    ((congrArg (unquoted 0) hcontent).trans (unquoted_spelledChars (spelledChars_flatMap u) s))
  cases hread
  exact ⟨rfl, List.append_cancel_left h⟩

end Json
end SheetFormula

import ScriptHints.Proofs.Token.Passage

/-!
# Quoted texts

A text is written between quotes with escapes, and a literal is read back from there. The two
agree on every character but two: the line separator and the paragraph separator are written
as they are, and end a line.
-/

namespace ScriptHints
namespace Token

open Text

def isSeparator (c : Char) : Bool :=
  c = '\u2028' || c = '\u2029'

def quoted (quote : Char) (text : String) : String :=
  String.ofList (quote :: (escapeContents quote text).toList ++ [quote])

theorem stringTail_escapeChar {quote c : Char} (hquote : quote = '"' ∨ quote = '\'')
    (hc : isSeparator c = false) (text : List Char) :
    stringTail quote (escapeChar quote c ++ text) =
      ((stringTail quote text).map (·.map (c :: ·))).extend (escapeChar quote c) := by
  have hbackslash : '\\' ≠ quote := by
    rcases hquote with rfl | rfl <;> decide
  have hescape (letter : Char) (h : escape letter text = ⟨[c], [letter], text⟩) :
      stringTail quote ('\\' :: letter :: text) =
        ((stringTail quote text).map (·.map (c :: ·))).extend ['\\', letter] := by
    rw [stringTail_escape hbackslash, h]
    rfl
  unfold escapeChar
  split
  next hsame =>
    rw [hsame] at hescape ⊢
    exact hescape '\\' rfl
  split
  next hsame =>
    rw [hsame] at hescape ⊢
    exact hescape 'n' rfl
  split
  next hsame =>
    rw [hsame] at hescape ⊢
    exact hescape 'r' rfl
  split
  next hsame =>
    rw [hsame] at hescape ⊢
    exact hescape 't' rfl
  split
  next hsame =>
    refine hescape c ?_
    rw [hsame]
    rcases hquote with rfl | rfl <;> rfl
  next hslash hfeed hreturn _ hother =>
    refine stringTail_plain hother hslash ?_ text
    simp [isLineTerminator, isSeparator] at hc ⊢
    exact ⟨⟨⟨hfeed, hreturn⟩, hc.1⟩, hc.2⟩

theorem stringTail_separator {quote c : Char} (hquote : quote = '"' ∨ quote = '\'')
    (hc : isSeparator c = true) (text : List Char) :
    (stringTail quote (escapeChar quote c ++ text)).value = none := by
  have hplain : escapeChar quote c = [c] ∧ c ≠ quote ∧ c ≠ '\\' ∧ isLineTerminator c = true := by
    simp only [isSeparator, Bool.or_eq_true, decide_eq_true_eq] at hc
    rcases hc with rfl | rfl <;> rcases hquote with rfl | rfl <;> decide
  rcases hplain with ⟨hsame, hother, hslash, hline⟩
  rw [hsame, stringTail.eq_def]
  show Reading.value (if c = quote then _ else if c = '\\' then _ else
    if isLineTerminator c = true then _ else _) = none
  rw [if_neg hother, if_neg hslash, if_pos hline]

theorem stringTail_escaped {quote : Char} (hquote : quote = '"' ∨ quote = '\'') {text : List Char}
    (h : text.any isSeparator = false) (rest : List Char) :
    stringTail quote (text.flatMap (escapeChar quote) ++ quote :: rest) =
      ⟨some text, text.flatMap (escapeChar quote) ++ [quote], rest⟩ := by
  induction text with
  | nil => exact stringTail_quote quote rest
  | cons c text ih =>
      rw [List.any_cons, Bool.or_eq_false_iff] at h
      rw [List.flatMap_cons, List.append_assoc, stringTail_escapeChar hquote h.1, ih h.2]
      simp [Reading.map, Reading.extend]

theorem stringTail_escaped_separator {quote : Char} (hquote : quote = '"' ∨ quote = '\'')
    {text : List Char} (h : text.any isSeparator = true) (rest : List Char) :
    (stringTail quote (text.flatMap (escapeChar quote) ++ rest)).value = none := by
  induction text with
  | nil => cases h
  | cons c text ih =>
      rw [List.flatMap_cons, List.append_assoc]
      cases hc : isSeparator c with
      | true => exact stringTail_separator hquote hc _
      | false =>
          rw [List.any_cons, hc, Bool.false_or] at h
          rw [stringTail_escapeChar hquote hc]
          show Option.map _
            (stringTail quote (text.flatMap (escapeChar quote) ++ rest)).value = none
          rw [ih h]
          rfl

/-- The literal for a text is one string token with that text, unless there is a separator
in it; then it is not closed. -/
theorem tokensOf_quoted {quote : Char} (hquote : quote = '"' ∨ quote = '\'') (text : String) :
    tokensOf (quoted quote text) =
      if text.toList.any isSeparator then
        .error { fault := .unterminatedString, place := Place.start }
      else
        .ok
          { body := #[⟨.string text, quoted quote text, Place.start, false⟩]
            stop := ⟨.endOfText, "", Place.start.after (quoted quote text).toList, false⟩ } := by
  have htext : (Lexer.ofText (quoted quote text)).rest =
      quote :: (text.toList.flatMap (escapeChar quote) ++ [quote]) := by
    simp [Lexer.ofText, quoted]
  have hitem := item_of_quote hquote (Lexer.ofText (quoted quote text)).afterOperand
    (text.toList.flatMap (escapeChar quote) ++ [quote])
  show Except.map _ (Lexer.ofText (quoted quote text)).run.1 = _
  cases hseparator : text.toList.any isSeparator with
  | true =>
      have hvalue : (item (Lexer.ofText (quoted quote text)).afterOperand quote
          (text.toList.flatMap (escapeChar quote) ++ [quote])).value =
            .fault .unterminatedString := by
        rw [hitem]
        unfold stringItem
        simp only [Reading.extend, Reading.map, stringTail_escaped_separator hquote hseparator]
      rw [Lexer.run_of_fault htext hvalue]
      rfl
  | false =>
      have hwhole : item (Lexer.ofText (quoted quote text)).afterOperand quote
          (text.toList.flatMap (escapeChar quote) ++ [quote]) =
            ⟨.token (.string text), (quoted quote text).toList, []⟩ := by
        rw [hitem]
        unfold stringItem
        rw [stringTail_escaped hquote hseparator]
        simp [Reading.extend, Reading.map, quoted]
      rw [Lexer.run_of_token htext (by rw [hwhole]), hwhole, Lexer.run_of_nil rfl]
      simp [Except.map, Lexer.after, Lexer.tokenHere, Lexer.ofText]

theorem tokensOf_quoted_separator :
    tokensOf (quoted '"' "\u2028") =
      .error { fault := .unterminatedString, place := Place.start } :=
  tokensOf_quoted (.inl rfl) "\u2028"

end Token
end ScriptHints

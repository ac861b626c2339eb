import ScriptHints.Proofs.Token.Respaced
import ScriptHints.Proofs.Token.Words

/-!
# Words behind a point

Any word may stand behind a point. What the lexer keeps of it for the text behind it is one thing:
whether a word of its kind ends an operand, which tells a division from a regular expression. So
the tokens behind two such words are the same if both words end an operand or neither does, and
also if no slash comes next.
-/

namespace ScriptHints
namespace Token

open Text

def SlashAhead (text : List Char) : Prop :=
  exists gap more, text = gap ++ '/' :: more ∧ Gap gap ('/' :: more) ∧
    more.head? ≠ some '/' ∧ more.head? ≠ some '*'

/-!
## Items behind a name
-/

theorem item_of_word {word rest : List Char} (h : IsWord word) (hrest : EndsWord rest)
    (afterOperand : Bool) :
    exists c cs, word = c :: cs ∧ item afterOperand c (cs ++ rest) =
      ⟨.token (kindOfWord (String.ofList word)), word, rest⟩ := by
  rcases h with ⟨hstart, hparts⟩
  cases word with
  | nil => cases hstart
  | cons c cs =>
      have hstart : isWordStart c = true := hstart
      rw [List.all_cons, Bool.and_eq_true] at hparts
      have htail : wordTail (cs ++ rest) = ⟨(), cs, rest⟩ :=
        run_append isWordPart (List.all_eq_true.mp hparts.2) hrest
      refine ⟨c, cs, rfl, ?_⟩
      rw [item_of_wordStart hstart]
      simp only [wordItem, htail, Reading.extend, Reading.map, List.cons_append, List.nil_append]

theorem item_of_dot {c : Char} (hc : isWordStart c = true) (text : List Char)
    (afterOperand : Bool) :
    item afterOperand '.' (c :: text) = ⟨.token (.punctuator .dot), ['.'], c :: text⟩ := by
  rcases isWordStart_plain hc with ⟨_, _, _, _, _, hdigit, _⟩
  have hpoint : startsNumber '.' (c :: text) = false := by
    show (false || (true && c.isDigit)) = false
    rw [hdigit]
    rfl
  have hchars : Punctuator.dot.chars = ['.'] := rfl
  rw [item_of_mark hchars (fun hslash => absurd hslash (by decide)) hpoint]
  rfl

theorem item_eq_of_not_slash {c : Char} {text : List Char}
    (h : c = '/' -> text.head? = some '/' ∨ text.head? = some '*') (afterOperand other : Bool) :
    item other c text = item afterOperand c text := by
  by_cases hslash : c = '/'
  · subst hslash
    rcases h rfl with hline | hblock
    · simp [item, isScriptBlank, isLineTerminator, hline]
    · simp [item, isScriptBlank, isLineTerminator, hblock]
  · simp [item, hslash]

theorem SlashAhead.here {text : List Char} (hline : text.head? ≠ some '/')
    (hblock : text.head? ≠ some '*') : SlashAhead ('/' :: text) :=
  ⟨[], text, rfl, .nil _, hline, hblock⟩

theorem SlashAhead.item {afterOperand : Bool} {c : Char} {text : List Char}
    (hvalue : (item afterOperand c text).value = .trivia)
    (h : SlashAhead (Token.item afterOperand c text).rest) : SlashAhead (c :: text) := by
  rcases h with ⟨gap, more, hrest, hgap, hline, hblock⟩
  refine ⟨(Token.item afterOperand c text).taken ++ gap, more, ?_, hgap.item hvalue hrest, hline,
    hblock⟩
  rw [List.append_assoc, ← hrest]
  exact (splits_item afterOperand c text).symm

/-!
## Runs without places
-/

namespace Lexer

def unplaced? (l : Lexer) : Option (List Unplaced) :=
  l.run.1.toOption.map fun (body, stop) => (body ++ [stop]).map Unplaced.of

variable {l l' : Lexer}

theorem unplaced?_nil (h : l.rest = []) : l.unplaced? = some [⟨.endOfText, "", l.newline⟩] := by
  unfold unplaced?
  rw [run_of_nil h]
  rfl

theorem unplaced?_fault {c : Char} {text : List Char} {fault : LexicalFault}
    (hrest : l.rest = c :: text) (hvalue : (item l.afterOperand c text).value = .fault fault) :
    l.unplaced? = none := by
  unfold unplaced?
  rw [run_of_fault hrest hvalue]
  rfl

theorem unplaced?_trivia {c : Char} {text : List Char} (hrest : l.rest = c :: text)
    (hvalue : (item l.afterOperand c text).value = .trivia) :
    l.unplaced? = (l.after (item l.afterOperand c text)).unplaced? := by
  unfold unplaced?
  rw [run_of_trivia hrest hvalue]

theorem unplaced?_token {c : Char} {text : List Char} {kind : TokenKind}
    (hrest : l.rest = c :: text) (hvalue : (item l.afterOperand c text).value = .token kind) :
    l.unplaced? = (l.after (item l.afterOperand c text)).unplaced?.map
      (⟨kind, String.ofList (item l.afterOperand c text).taken, l.newline⟩ :: ·) := by
  unfold unplaced?
  rw [run_of_token hrest hvalue]
  cases (l.after (item l.afterOperand c text)).run.1 <;> rfl

theorem item_eq (h : l'.afterOperand = l.afterOperand ∨ ¬ SlashAhead l.rest) {c : Char}
    {text : List Char} (hrest : l.rest = c :: text) :
    item l'.afterOperand c text = item l.afterOperand c text := by
  rcases h with hsame | hnone
  · rw [hsame]
  · apply item_eq_of_not_slash
    rintro rfl
    by_cases hline : text.head? = some '/'
    · exact .inl hline
    · by_cases hblock : text.head? = some '*'
      · exact .inr hblock
      · rw [hrest] at hnone
        exact absurd (.here hline hblock) hnone

/-- Whether an operand has ended matters only if a slash comes next. -/
theorem unplaced?_eq (hrest : l'.rest = l.rest) (hnewline : l'.newline = l.newline)
    (h : l'.afterOperand = l.afterOperand ∨ ¬ SlashAhead l.rest) :
    l'.unplaced? = l.unplaced? := by
  fun_induction Lexer.run l generalizing l' with
  | case1 l hnil => rw [unplaced?_nil hnil, unplaced?_nil (hrest.trans hnil), hnewline]
  | case2 l c text htext found fault =>
      rename_i hvalue
      have hfound : item l'.afterOperand c text = found := item_eq h htext
      have hvalue' := hvalue
      rw [← hfound] at hvalue'
      rw [unplaced?_fault htext hvalue, unplaced?_fault (hrest.trans htext) hvalue']
  | case3 l c text htext found hvalue =>
      rename_i ih
      have hfound : item l'.afterOperand c text = found := item_eq h htext
      have hvalue' := hvalue
      rw [← hfound] at hvalue'
      rw [unplaced?_trivia htext hvalue, unplaced?_trivia (hrest.trans htext) hvalue', hfound]
      apply ih
      · rfl
      · unfold Lexer.after
        rw [hnewline]
      · rcases h with hsame | hnone
        · left
          unfold Lexer.after
          rw [hsame]
        · right
          intro hahead
          rw [htext] at hnone
          exact hnone (hahead.item hvalue)
  | case4 l c text htext found kind hvalue result last hrun =>
      rename_i ih
      have hfound : item l'.afterOperand c text = found := item_eq h htext
      have hvalue' := hvalue
      rw [← hfound] at hvalue'
      have hmore : (l'.after found).unplaced? = (l.after found).unplaced? := by
        apply ih
        · rfl
        · unfold Lexer.after
          rw [hvalue]
        · left
          unfold Lexer.after
          rw [hvalue]
      rw [unplaced?_token htext hvalue, unplaced?_token (hrest.trans htext) hvalue', hfound,
        hnewline, hmore]

theorem unplaced?_word {word : String} (hword : IsWord word.toList) {rest : List Char}
    (hends : EndsWord rest) (hrest : l.rest = word.toList ++ rest) :
    exists m : Lexer, m.rest = rest ∧ m.newline = false ∧
      m.afterOperand = (kindOfWord word).endsOperand ∧
      l.unplaced? = m.unplaced?.map (⟨kindOfWord word, word, l.newline⟩ :: ·) := by
  rcases item_of_word hword hends l.afterOperand with ⟨c, cs, hchars, hitem⟩
  rw [String.ofList_toList] at hitem
  have htext : l.rest = c :: (cs ++ rest) := by
    rw [hrest, hchars]
    rfl
  have htoken := unplaced?_token htext (by rw [hitem])
  rw [hitem, String.ofList_toList] at htoken
  exact ⟨_, rfl, rfl, rfl, htoken⟩

theorem unplaced?_dot {word : String} (hword : IsWord word.toList) {rest : List Char}
    (hrest : l.rest = '.' :: (word.toList ++ rest)) :
    exists m : Lexer, m.rest = word.toList ++ rest ∧ m.newline = false ∧
      l.unplaced? = m.unplaced?.map (⟨.punctuator .dot, ".", l.newline⟩ :: ·) := by
  rcases hword with ⟨hstart, _⟩
  cases hchars : word.toList with
  | nil =>
      rw [hchars] at hstart
      cases hstart
  | cons c cs =>
      rw [hchars] at hstart hrest
      have hitem := item_of_dot hstart (cs ++ rest) l.afterOperand
      have htoken := unplaced?_token hrest (by rw [List.cons_append, hitem])
      rw [List.cons_append, hitem] at htoken
      exact ⟨_, rfl, rfl, htoken⟩

end Lexer

theorem unplaced?_ofText (text : String) :
    (Lexer.ofText text).unplaced? = (tokensOf text).toOption.map TokenStream.unplaced := by
  unfold Lexer.unplaced? tokensOf Lexer.tokenize
  dsimp only
  cases (Lexer.ofText text).run.1 with
  | error e => rfl
  | ok pair => simp [Except.map, Except.toOption, TokenStream.unplaced, TokenStream.toList]

/-!
## Members of an object
-/

def memberText (object name rest : String) : String :=
  object ++ "." ++ name ++ rest

def memberTokens (object name : String) : List Unplaced :=
  [⟨.identifier, object, false⟩, ⟨.punctuator .dot, ".", false⟩, ⟨kindOfWord name, name, false⟩]

variable {object name other rest : String}

/-- The lexer behind the word keeps of it whether it ends an operand. -/
theorem unplaced?_memberText (hobject : IsName object) (hname : IsWord name.toList)
    (hrest : EndsWord rest.toList) :
    exists l : Lexer, l.rest = rest.toList ∧ l.newline = false ∧
      l.afterOperand = (kindOfWord name).endsOperand ∧
      (Lexer.ofText (memberText object name rest)).unplaced? =
        l.unplaced?.map (memberTokens object name ++ ·) := by
  have htext : (Lexer.ofText (memberText object name rest)).rest =
      object.toList ++ '.' :: (name.toList ++ rest.toList) := by
    show (memberText object name rest).toList = _
    simp [memberText, String.toList_append]
  have hpoint : EndsWord ('.' :: (name.toList ++ rest.toList)) := endsWord_cons (by decide) _
  rcases Lexer.unplaced?_word hobject.isWord hpoint htext with
    ⟨l₁, hrest₁, hline₁, _, heq₁⟩
  rcases Lexer.unplaced?_dot hname hrest₁ with ⟨l₂, hrest₂, hline₂, heq₂⟩
  rcases Lexer.unplaced?_word hname hrest hrest₂ with ⟨l₃, hrest₃, hline₃, hafter, heq₃⟩
  refine ⟨l₃, hrest₃, hline₃, hafter, ?_⟩
  rw [heq₁, heq₂, heq₃, hline₁, hline₂, hobject.2.2, Option.map_map, Option.map_map]
  rfl

/-- Another word behind the point changes nothing behind it, unless a slash comes next and just
one of the two words ends an operand. -/
theorem tokensOf_memberText (hobject : IsName object) (hname : IsWord name.toList)
    (hother : IsWord other.toList) (hrest : EndsWord rest.toList)
    (hslash : (kindOfWord other).endsOperand = (kindOfWord name).endsOperand ∨
      ¬ SlashAhead rest.toList) :
    (exists e e', tokensOf (memberText object name rest) = .error e ∧
      tokensOf (memberText object other rest) = .error e') ∨
    exists stream stream' more, tokensOf (memberText object name rest) = .ok stream ∧
      tokensOf (memberText object other rest) = .ok stream' ∧
      stream.unplaced = memberTokens object name ++ more ∧
      stream'.unplaced = memberTokens object other ++ more := by
  rcases unplaced?_memberText hobject hname hrest with ⟨l, hl, hline, hafter, heq⟩
  rcases unplaced?_memberText hobject hother hrest with ⟨l', hl', hline', hafter', heq'⟩
  have hsame : l'.unplaced? = l.unplaced? := by
    apply Lexer.unplaced?_eq (hl'.trans hl.symm) (hline'.trans hline.symm)
    rw [hafter, hafter', hl]
    exact hslash
  rw [unplaced?_ofText] at heq heq'
  rw [hsame] at heq'
  cases hmore : l.unplaced? with
  | none =>
      rw [hmore] at heq heq'
      cases hstream : tokensOf (memberText object name rest) with
      | ok stream =>
          rw [hstream] at heq
          cases heq
      | error e =>
          cases hstream' : tokensOf (memberText object other rest) with
          | ok stream' =>
              rw [hstream'] at heq'
              cases heq'
          | error e' => exact .inl ⟨e, e', rfl, rfl⟩
  | some more =>
      rw [hmore] at heq heq'
      cases hstream : tokensOf (memberText object name rest) with
      | error e =>
          rw [hstream] at heq
          cases heq
      | ok stream =>
          rw [hstream] at heq
          cases hstream' : tokensOf (memberText object other rest) with
          | error e' =>
              rw [hstream'] at heq'
              cases heq'
          | ok stream' =>
              rw [hstream'] at heq'
              exact .inr ⟨stream, stream', more, rfl, rfl, Option.some.inj heq,
                Option.some.inj heq'⟩

end Token
end ScriptHints

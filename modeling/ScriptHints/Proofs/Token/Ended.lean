import ScriptHints.Token.Lexer

/-!
# The end of a stream

The lexer puts the token for the end of the text behind all other tokens, and no other
token of a stream is of its kind.
-/

namespace ScriptHints
namespace Token

namespace TokenStream

/-- The end of the text comes behind all other tokens and nowhere else. -/
structure Ended (stream : TokenStream) : Prop where
  body : forall t, t ∈ stream.body.toList -> t.kind ≠ .endOfText
  stop : stream.stop.kind = .endOfText

theorem Ended.kind_get_eq_iff {stream : TokenStream} (h : stream.Ended) (position : Nat) :
    (stream.get position).kind = .endOfText ↔ stream.size ≤ position := by
  constructor
  · intro hkind
    by_cases hlt : position < stream.body.size
    · have hget : stream.get position = stream.body[position] := by
        simp [get, hlt]
      rw [hget] at hkind
      exact absurd hkind (h.body _ (Array.getElem_mem_toList _))
    · exact Nat.le_of_not_lt hlt
  · intro hle
    rw [stream.get_of_size_le hle]
    exact h.stop

end TokenStream

theorem kindOfWord_ne_endOfText (word : String) : kindOfWord word ≠ .endOfText := by
  unfold kindOfWord
  cases Keyword.ofText? word with
  | some k => simp
  | none =>
      by_cases htrue : word = "true"
      · simp [htrue]
      · by_cases hfalse : word = "false" <;> simp [htrue, hfalse]

theorem lineBreak_value (c : Char) (text : List Char) : (lineBreak c text).value = .trivia := by
  unfold lineBreak
  split <;> rfl

theorem blockCommentItem_ne_endOfText (text : List Char) :
    (blockCommentItem text).value ≠ .token .endOfText := by
  simp only [blockCommentItem, Reading.extend, Reading.map]
  cases (blockCommentTail text).value <;> simp

theorem regExpItem_ne_endOfText (text : List Char) :
    (regExpItem text).value ≠ .token .endOfText := by
  simp only [regExpItem, Reading.extend, Reading.map]
  cases (regExpTail text).value <;> simp

theorem stringItem_ne_endOfText (quote : Char) (text : List Char) :
    (stringItem quote text).value ≠ .token .endOfText := by
  simp only [stringItem, Reading.extend, Reading.map]
  cases (stringTail quote text).value <;> simp

theorem numberItem_ne_endOfText (text : List Char) :
    (numberItem text).value ≠ .token .endOfText := by
  simp only [numberItem, Reading.map]
  cases (numericLiteral text).value <;> simp

theorem wordItem_ne_endOfText (c : Char) (text : List Char) :
    (wordItem c text).value ≠ .token .endOfText := by
  intro heq
  simp only [wordItem, Reading.map, Item.token.injEq] at heq
  exact kindOfWord_ne_endOfText _ heq

theorem punctuatorItem_ne_endOfText (c : Char) (text : List Char) :
    (punctuatorItem c text).value ≠ .token .endOfText := by
  unfold punctuatorItem
  cases Punctuator.longest? (c :: text) <;> simp

theorem item_ne_endOfText (afterOperand : Bool) (c : Char) (text : List Char) :
    (item afterOperand c text).value ≠ .token .endOfText := by
  have hite {p : Prop} [Decidable p] {r r' : Reading Item}
      (hthen : r.value ≠ .token .endOfText) (helse : r'.value ≠ .token .endOfText) :
      (if p then r else r').value ≠ .token .endOfText := by
    by_cases h : p
    · rw [if_pos h]
      exact hthen
    · rw [if_neg h]
      exact helse
  unfold item
  refine hite (by simp) (hite (by simp [lineBreak_value]) (hite ?_ (hite ?_ (hite ?_ ?_))))
  · simp [lineCommentItem, Reading.extend, Reading.map]
  · exact blockCommentItem_ne_endOfText _
  · exact regExpItem_ne_endOfText _
  · refine hite (stringItem_ne_endOfText c text) (hite (numberItem_ne_endOfText _) ?_)
    exact hite (wordItem_ne_endOfText c text) (punctuatorItem_ne_endOfText c text)

theorem taken_ne_nil_of_token {afterOperand : Bool} {c : Char} {text : List Char}
    {kind : TokenKind} (h : (item afterOperand c text).value = .token kind) :
    (item afterOperand c text).taken ≠ [] := by
  apply taken_item_ne_nil
  rw [h]
  exact nofun

namespace Lexer

theorem run_ended (l : Lexer) {body : List Token} {stop : Token}
    (h : l.run.1 = .ok (body, stop)) :
    (forall t, t ∈ body -> t.kind ≠ .endOfText) ∧ stop.kind = .endOfText := by
  fun_induction Lexer.run l generalizing body stop with
  | case1 l hrest =>
      cases h
      exact ⟨nofun, rfl⟩
  | case2 => cases h
  | case3 l c text hrest found hvalue =>
      rename_i ih
      exact ih h
  | case4 l c text hrest found kind hvalue result last hrun =>
      rename_i ih
      cases hresult : result with
      | error e =>
          rw [hresult] at h
          cases h
      | ok pair =>
          rw [hresult] at h
          cases h
          rw [hresult] at hrun
          rcases ih (by rw [hrun]) with ⟨hbody, hstop⟩
          refine ⟨?_, hstop⟩
          intro t ht
          rcases List.mem_cons.mp ht with hhead | htail
          · rw [hhead]
            intro hkind
            have hkind : kind = .endOfText := hkind
            rw [hkind] at hvalue
            exact item_ne_endOfText l.afterOperand c text hvalue
          · exact hbody t htail

end Lexer

theorem ended_tokensOf {text : String} {stream : TokenStream}
    (h : tokensOf text = .ok stream) : stream.Ended := by
  unfold tokensOf Lexer.tokenize at h
  cases hrun : (Lexer.ofText text).run.1 with
  | error e =>
      simp only [hrun] at h
      cases h
  | ok pair =>
      simp only [hrun] at h
      cases h
      rcases Lexer.run_ended _ hrun with ⟨hbody, hstop⟩
      exact ⟨by simpa using hbody, hstop⟩

end Token
end ScriptHints

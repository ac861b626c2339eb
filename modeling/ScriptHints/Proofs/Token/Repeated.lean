import ScriptHints.Proofs.Token.Positions

/-!
# A lexer that is run again

A run leaves the lexer where it stops: at the end of the text, before a character that begins no
token, or behind what a fault has taken. In the first two cases the lexer stays as it is however
often it is run, and in the third one it has got further on. So it settles, whatever the text.
-/

namespace ScriptHints
namespace Token

open Text

namespace Lexer

variable {l m last : Lexer} {front : List Char} {result : Except LexicalError (List Token × Token)}

/-!
## Where a run stops
-/

theorem At.stops (h : l.At front) (hstops : l.Stops result last) :
    exists more, l.rest = more ++ last.rest ∧ last.At (front ++ more) := by
  cases hstops with
  | behind hpasses _ =>
      rcases h.passes hpasses with ⟨more, hmore, hm, _⟩
      exact ⟨more, hmore, hm.place, hm.apart⟩
  | @fault m ts c text fault hpasses hrest _ =>
      rcases h.passes hpasses with ⟨more, hmore, hm, _⟩
      refine ⟨more ++ (item m.afterOperand c text).taken, ?_, ?_⟩
      · rw [hmore, hrest, List.append_assoc]
        exact congrArg (more ++ ·) (splits_item m.afterOperand c text).symm
      · rw [← List.append_assoc]
        exact hm.after hrest

/-!
## Runs that change nothing
-/

theorem tokenize_of_nil (hrest : l.rest = []) (hnewline : l.newline = false) :
    l.tokenize = (.ok { body := #[], stop := l.tokenHere .endOfText [] }, l) := by
  unfold tokenize
  rw [run_of_nil hrest, ← hnewline]
  rfl

theorem item_of_unexpected {afterOperand : Bool} {c d : Char} {text : List Char}
    (h : (item afterOperand c text).value = .fault (.unexpectedCharacter d)) :
    item afterOperand c text = ⟨.fault (.unexpectedCharacter d), [], c :: text⟩ := by
  unfold item at h ⊢
  repeat' split at h
  next => cases h
  next =>
      unfold lineBreak at h
      split at h <;> cases h
  next => cases h
  next =>
      generalize text.drop 1 = comment at h
      cases hclosed : (blockCommentTail comment).value <;>
        simp [blockCommentItem, Reading.extend, Reading.map, hclosed] at h
  next =>
      cases hclosed : (regExpTail text).value <;>
        simp [regExpItem, Reading.extend, Reading.map, hclosed] at h
  next =>
      cases hclosed : (stringTail c text).value <;>
        simp [stringItem, Reading.extend, Reading.map, hclosed] at h
  next =>
      cases hvalue : (numericLiteral (c :: text)).value <;>
        simp [numberItem, Reading.map, hvalue] at h
  next => cases h
  next hblank hterminator hline hblock hregExp hquote hnumber hword =>
      simp only [hblank, hterminator, hline, hblock, hregExp, hquote, hnumber, hword]
      unfold punctuatorItem at h ⊢
      split at h
      next => cases h
      next =>
          cases h
          rfl

theorem after_of_unexpected {c d : Char} {text : List Char} (hrest : l.rest = c :: text)
    (hvalue : (item l.afterOperand c text).value = .fault (.unexpectedCharacter d)) :
    l.after (item l.afterOperand c text) = l := by
  rw [item_of_unexpected hvalue]
  unfold after
  rw [← hrest]
  simp [breaksLine]

/-- A lexer before a character that begins no token reports it and stays as it is. -/
theorem tokenize_of_unexpected {c d : Char} {text : List Char} (hrest : l.rest = c :: text)
    (hvalue : (item l.afterOperand c text).value = .fault (.unexpectedCharacter d)) :
    l.tokenize = (.error { fault := .unexpectedCharacter d, place := l.place }, l) := by
  unfold tokenize
  rw [run_eq_of_fault hrest hvalue, after_of_unexpected hrest hvalue]
  rfl

/-!
## Run after run
-/

def called (l : Lexer) : Nat → Lexer
  | 0 => l
  | n + 1 => (l.called n).tokenize.2

theorem called_add (l : Lexer) (m n : Nat) : l.called (m + n) = (l.called m).called n := by
  induction n with
  | zero => rfl
  | succ n ih => exact congrArg (fun l => l.tokenize.2) ih

theorem called_of_tokenize (h : l.tokenize.2 = l) (n : Nat) : l.called n = l := by
  induction n with
  | zero => rfl
  | succ n ih =>
      show (l.called n).tokenize.2 = l
      rw [ih, h]

theorem called_of_still {n k : Nat} (hlast : (l.called n).tokenize.2 = last)
    (h : last.tokenize.2 = last) (hk : n < k) : l.called k = last := by
  rcases Nat.exists_eq_add_of_lt hk with ⟨more, rfl⟩
  rw [Nat.add_right_comm, called_add]
  show (l.called n).tokenize.2.called more = last
  rw [hlast]
  exact called_of_tokenize h more

theorem At.called (h : l.At front) (n : Nat) :
    exists more, l.rest = more ++ (l.called n).rest ∧ (l.called n).At (front ++ more) := by
  induction n with
  | zero => exact ⟨[], rfl, by rwa [List.append_nil]⟩
  | succ n ih =>
      rcases ih with ⟨before, hbefore, hn⟩
      rcases hn.stops (run_stops (l.called n)) with ⟨more, hmore, hlast⟩
      refine ⟨before ++ more, ?_, ?_⟩
      · rw [hbefore, hmore, List.append_assoc]
        rfl
      · rw [← List.append_assoc]
        exact hlast

inductive RunEnd (l last : Lexer) : Except LexicalError TokenStream → Prop where
  | ended {stream : TokenStream} :
      last.rest = [] -> last.newline = false -> RunEnd l last (.ok stream)
  | stuck {c : Char} {place : Place} :
      last.tokenize = (.error ⟨.unexpectedCharacter c, place⟩, last) ->
      RunEnd l last (.error ⟨.unexpectedCharacter c, place⟩)
  | passed {e : LexicalError} :
      (forall c, e.fault ≠ .unexpectedCharacter c) -> last.rest.length < l.rest.length ->
      RunEnd l last (.error e)

theorem runEnd_tokenize (l : Lexer) : l.RunEnd l.tokenize.2 l.tokenize.1 := by
  have hstops := run_stops l
  unfold tokenize
  generalize l.run = outcome at hstops
  rcases outcome with ⟨result, last⟩
  cases hstops with
  | behind _ hend => exact .ended hend rfl
  | @fault m ts c text fault hpasses hrest hvalue =>
      rcases hpasses.exists_front with ⟨front, hfront, _⟩
      by_cases hcharacter : exists d, fault = .unexpectedCharacter d
      · rcases hcharacter with ⟨d, rfl⟩
        have hstay := tokenize_of_unexpected hrest hvalue
        have hlast : m.after (item m.afterOperand c text) = m := after_of_unexpected hrest hvalue
        show RunEnd l (m.after (item m.afterOperand c text)) (.error _)
        rw [hlast]
        exact .stuck hstay
      · have hsome : (item m.afterOperand c text).taken ≠ [] := by
          apply taken_item_ne_nil
          rw [hvalue]
          rintro ⟨⟩
          exact hcharacter ⟨c, rfl⟩
        have hless : (item m.afterOperand c text).rest.length < m.rest.length := by
          rw [hrest]
          exact (splits_item m.afterOperand c text).length_rest_lt hsome
        have hmore : m.rest.length ≤ l.rest.length := by
          rw [hfront, List.length_append]
          exact Nat.le_add_left _ _
        refine .passed (fun d hd => hcharacter ⟨d, hd⟩) (Nat.lt_of_lt_of_le hless hmore)

/-- Only so many runs can report something else than the character at which the lexer is stuck. -/
theorem exists_settled (l : Lexer) :
    exists n, n ≤ l.rest.length ∧
      ((exists stream, (l.called n).tokenize.1 = .ok stream) ∨
        exists c place, (l.called n).tokenize.1 = .error ⟨.unexpectedCharacter c, place⟩) := by
  induction hlength : l.rest.length using Nat.strong_induction_on generalizing l with
  | _ length ih =>
      have hturn := l.runEnd_tokenize
      generalize hanswer : l.tokenize.1 = answer at hturn
      cases hturn with
      | ended _ _ => exact ⟨0, Nat.zero_le _, .inl ⟨_, hanswer⟩⟩
      | stuck _ => exact ⟨0, Nat.zero_le _, .inr ⟨_, _, hanswer⟩⟩
      | passed _ hless =>
          rcases ih _ (hlength ▸ hless) l.tokenize.2 rfl with ⟨n, hn, hsettled⟩
          have hcalled : l.called (1 + n) = l.tokenize.2.called n := called_add l 1 n
          refine ⟨1 + n, by omega, ?_⟩
          rw [hcalled]
          exact hsettled

end Lexer

/-!
## One lexer for a text
-/

/-- What the lexer of a text answers when it has been run so many times before. -/
def answer (text : String) (n : Nat) : Except LexicalError TokenStream :=
  ((Lexer.ofText text).called n).tokenize.1

def standing (text : String) (n : Nat) : Place :=
  ((Lexer.ofText text).called n).place

def endAgain (text : String) : TokenStream :=
  { body := #[], stop := ⟨.endOfText, "", Place.start.after text.toList, false⟩ }

structure Settles (text : String) : Prop where
  within : forall n, exists front rest, text.toList = front ++ rest ∧
    standing text n = Place.start.after front
  bounded : forall n, (standing text n).offset ≤ text.utf8ByteSize
  later : forall n k, n ≤ k -> (standing text n).offset ≤ (standing text k).offset
  ended : forall n stream, answer text n = .ok stream ->
    forall k, n < k -> answer text k = .ok (endAgain text)
  stuck : forall n c place, answer text n = .error ⟨.unexpectedCharacter c, place⟩ ->
    forall k, n < k -> answer text k = .error ⟨.unexpectedCharacter c, place⟩
  passed : forall n e, answer text n = .error e -> (forall c, e.fault ≠ .unexpectedCharacter c) ->
    (standing text n).offset < (standing text (n + 1)).offset
  reached : exists n, n ≤ text.length ∧ ((exists stream, answer text n = .ok stream) ∨
    exists c place, answer text n = .error ⟨.unexpectedCharacter c, place⟩)

theorem at_ofText (text : String) : (Lexer.ofText text).At [] :=
  ⟨rfl, apart_nil _⟩

theorem standing_add (text : String) (n more : Nat) :
    exists front part rest, text.toList = front ++ part ++ rest ∧
      ((Lexer.ofText text).called n).rest = part ++ rest ∧
      ((Lexer.ofText text).called (n + more)).rest = rest ∧
      standing text n = Place.start.after front ∧
      standing text (n + more) = Place.start.after (front ++ part) := by
  rcases (at_ofText text).called n with ⟨front, hfront, hn⟩
  rcases hn.called more with ⟨part, hpart, hmore⟩
  rw [← Lexer.called_add] at hpart hmore
  refine ⟨front, part, _, ?_, hpart, rfl, hn.place, hmore.place⟩
  rw [List.append_assoc, ← hpart]
  exact hfront

theorem utf8Len_pos {text : List Char} (h : text ≠ []) : 0 < String.utf8Len text := by
  cases text with
  | nil => exact absurd rfl h
  | cons c text =>
      rw [String.utf8Len_cons]
      exact Nat.add_pos_right _ c.utf8Size_pos

theorem answer_of_ended {text : String} {n k : Nat} {stream : TokenStream}
    (h : answer text n = .ok stream) (hk : n < k) : answer text k = .ok (endAgain text) := by
  have hturn := ((Lexer.ofText text).called n).runEnd_tokenize
  rw [show ((Lexer.ofText text).called n).tokenize.1 = .ok stream from h] at hturn
  rcases (at_ofText text).called (n + 1) with ⟨front, hfront, hend⟩
  generalize hlast : (Lexer.ofText text).called (n + 1) = last at hfront hend
  rw [show ((Lexer.ofText text).called n).tokenize.2 = last from hlast] at hturn
  cases hturn with
  | ended hrest hnewline =>
      have hstill := Lexer.tokenize_of_nil hrest hnewline
      have hfront : text.toList = front := by
        rw [← List.append_nil front, ← hrest]
        exact hfront
      unfold answer
      rw [Lexer.called_of_still hlast (congrArg Prod.snd hstill) hk, hstill]
      unfold Lexer.tokenHere endAgain
      rw [hnewline, hend.place, hfront]
      rfl

theorem answer_of_stuck {text : String} {n k : Nat} {c : Char} {place : Place}
    (h : answer text n = .error ⟨.unexpectedCharacter c, place⟩) (hk : n < k) :
    answer text k = .error ⟨.unexpectedCharacter c, place⟩ := by
  have hturn := ((Lexer.ofText text).called n).runEnd_tokenize
  rw [show ((Lexer.ofText text).called n).tokenize.1 = _ from h] at hturn
  generalize hlast : ((Lexer.ofText text).called n).tokenize.2 = last at hturn
  cases hturn with
  | stuck hstay =>
      unfold answer
      rw [Lexer.called_of_still hlast (congrArg Prod.snd hstay) hk, hstay]
  | passed hother _ => exact absurd rfl (hother c)

theorem standing_of_passed {text : String} {n : Nat} {e : LexicalError}
    (h : answer text n = .error e) (hother : forall c, e.fault ≠ .unexpectedCharacter c) :
    (standing text n).offset < (standing text (n + 1)).offset := by
  have hturn := ((Lexer.ofText text).called n).runEnd_tokenize
  rw [show ((Lexer.ofText text).called n).tokenize.1 = _ from h] at hturn
  cases hturn with
  | stuck _ => exact absurd rfl (hother _)
  | passed _ hless =>
      rcases standing_add text n 1 with ⟨front, part, rest, _, hpart, hrest, hbefore, hbehind⟩
      have hsome : part ≠ [] := by
        rintro rfl
        exact absurd (congrArg List.length (hrest.trans hpart.symm)) (Nat.ne_of_lt hless)
      rw [hbefore, hbehind, offset_after, offset_after, String.utf8Len_append]
      have hbytes := utf8Len_pos hsome
      omega

/--
A lexer that is run again and again never goes back, and stays in its text. It comes to the end of
the text or to a character that begins no token after so many runs as the text has characters or
before, and then every run reports just this; all runs before report another error and get the
lexer further on.
-/
theorem tokenize_settles (text : String) : Settles text where
  within n := by
    rcases standing_add text n 0 with ⟨front, part, rest, htext, _, _, hplace, _⟩
    exact ⟨front, part ++ rest, by rw [htext, List.append_assoc], hplace⟩
  bounded n := by
    rcases standing_add text n 0 with ⟨front, part, rest, htext, _, _, hplace, _⟩
    rw [hplace, offset_after, utf8ByteSize_eq, htext, String.utf8Len_append, String.utf8Len_append]
    show 0 + _ ≤ _
    omega
  later n k hk := by
    rcases Nat.exists_eq_add_of_le hk with ⟨more, rfl⟩
    rcases standing_add text n more with ⟨front, part, rest, _, _, _, hbefore, hbehind⟩
    rw [hbefore, hbehind, offset_after, offset_after, String.utf8Len_append]
    omega
  ended _ _ h _ hk := answer_of_ended h hk
  stuck _ _ _ h _ hk := answer_of_stuck h hk
  passed _ _ h hother := standing_of_passed h hother
  reached := by
    rcases (Lexer.ofText text).exists_settled with ⟨n, hn, hsettled⟩
    exact ⟨n, Nat.le_trans hn (Nat.le_of_eq String.length_toList), hsettled⟩

/-- A number that goes on as a word, a string that is not closed, and a character that begins no
token, each reported by a run of its own. -/
example : (List.range 4).map (fun n => (answer "1a'\n@" n, (standing "1a'\n@" n).offset)) =
    [(.error ⟨.invalidNumber "1", ⟨1, 1, 0⟩⟩, 0), (.error ⟨.unterminatedString, ⟨1, 3, 2⟩⟩, 1),
      (.error ⟨.unexpectedCharacter '@', ⟨2, 1, 4⟩⟩, 3),
      (.error ⟨.unexpectedCharacter '@', ⟨2, 1, 4⟩⟩, 4)] := by
  cbv

end Token
end ScriptHints

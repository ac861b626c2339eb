import Mathlib.Data.List.DropRight
import ScriptHints.Proofs.Bytes.Items
import ScriptHints.Proofs.Token.Passage

/-!
# Lines and columns

The lexer counts lines and columns as it goes along. What it has counted at the beginning of
an item is what a reader counts in the text up to there: the lines that have ended, and the
characters behind the last line end. The item may be a token, the end of the text, or a piece
that is no token, which is then what the error is about.
-/

namespace ScriptHints
namespace Text

def lineEnds : List Char → Nat
  | [] => 0
  | '\r' :: '\n' :: text => lineEnds text + 1
  | c :: text => if isLineTerminator c then lineEnds text + 1 else lineEnds text

def lastLine (text : List Char) : List Char :=
  text.rtakeWhile fun c => !isLineTerminator c

/-- The place between the characters of a text that a reader finds there by counting. -/
structure Place.Counts (p : Place) (text : List Char) : Prop where
  offset : p.offset = String.utf8Len (takeBytes p.offset text)
  line : p.line = lineEnds (takeBytes p.offset text) + 1
  column : p.column = (lastLine (takeBytes p.offset text)).length + 1

/-!
## Counting from the front
-/

theorem lineEnds_eq_zero_iff (text : List Char) :
    lineEnds text = 0 ↔ text.any isLineTerminator = false := by
  fun_induction lineEnds text with
  | case1 => simp
  | case2 text ih => simp [isLineTerminator]
  | case3 c text hsingle hterminator ih => simp [hterminator]
  | case4 c text hsingle hother ih => simp [hother, ih]

theorem lastLine_of_inline {text : List Char} (h : text.any isLineTerminator = false) :
    lastLine text = text := by
  apply List.rtakeWhile_eq_self_iff.mpr
  intro c hc
  simpa using List.any_eq_false.mp h c hc

theorem lastLine_cons (c : Char) (text : List Char) :
    lastLine (c :: text) =
      if text.any isLineTerminator then lastLine text
      else if isLineTerminator c then text else c :: text := by
  induction text using List.reverseRecOn with
  | nil =>
      show lastLine ([] ++ [c]) = _
      unfold lastLine
      cases hc : isLineTerminator c <;> simp [List.rtakeWhile, hc]
  | append_singleton text d ih =>
      rw [← List.cons_append]
      unfold lastLine at ih ⊢
      rw [List.rtakeWhile_concat, List.rtakeWhile_concat, ih, List.any_append]
      cases hd : isLineTerminator d with
      | true => simp [hd]
      | false =>
          cases htext : text.any isLineTerminator <;> cases hc : isLineTerminator c <;>
            simp [hd]

theorem column_of_terminator {c : Char} (hc : isLineTerminator c = true) (text : List Char) :
    (lastLine (c :: text)).length =
      if text.any isLineTerminator then (lastLine text).length else text.length := by
  rw [lastLine_cons, if_pos hc]
  split <;> rfl

theorem after_eq (p : Place) (text : List Char) :
    p.after text =
      { line := p.line + lineEnds text
        column :=
          if text.any isLineTerminator then (lastLine text).length + 1 else p.column + text.length
        offset := p.offset + String.utf8Len text } := by
  fun_induction Place.after p text with
  | case1 p => simp [lineEnds]
  | case2 p text ih =>
      have hfeed : isLineTerminator '\n' = true := by decide
      have hany : ('\n' :: text).any isLineTerminator = true := by
        rw [List.any_cons, hfeed, Bool.true_or]
      have hreturn : isLineTerminator '\r' = true := by decide
      rw [ih, lineEnds, List.any_cons, hany, Bool.or_true, if_pos rfl,
        column_of_terminator hreturn, if_pos hany, column_of_terminator hfeed]
      simp only [Place.mk.injEq]
      have hpair : String.utf8Len ('\r' :: '\n' :: text) = 2 + String.utf8Len text := by
        rw [String.utf8Len_cons, String.utf8Len_cons, Nat.add_assoc, Nat.add_comm]
        rfl
      refine ⟨by omega, ?_, by rw [hpair, Nat.add_assoc]⟩
      split <;> omega
  | case3 p c text hsingle hterminator ih =>
      rw [ih, lineEnds, if_pos hterminator, List.any_cons, hterminator, Bool.true_or, if_pos rfl,
        column_of_terminator hterminator]
      · simp only [Place.mk.injEq]
        refine ⟨by omega, ?_, by simp [Nat.add_assoc, Nat.add_comm]⟩
        split <;> omega
      · exact hsingle
  | case4 p c text hsingle hother ih =>
      rw [ih, lineEnds, if_neg hother, List.any_cons, Bool.eq_false_iff.mpr hother, Bool.false_or,
        lastLine_cons, if_neg hother, List.length_cons]
      · simp only [Place.mk.injEq, true_and]
        refine ⟨?_, by simp [Nat.add_assoc, Nat.add_comm]⟩
        split <;> omega
      · exact hsingle

theorem counts_after (front rest : List Char) :
    (Place.start.after front).Counts (front ++ rest) := by
  have hplace := after_eq Place.start front
  have hoffset : (Place.start.after front).offset = String.utf8Len front := by
    rw [hplace]
    exact Nat.zero_add _
  have htake : takeBytes (Place.start.after front).offset (front ++ rest) = front := by
    rw [hoffset, Token.takeBytes_append]
  refine ⟨?_, ?_, ?_⟩
  · rw [htake, hoffset]
  · rw [htake, hplace]
    exact Nat.add_comm _ _
  · rw [htake, hplace]
    show (if front.any isLineTerminator then (lastLine front).length + 1
      else 1 + front.length) = _
    split
    · rfl
    · rename_i hnone
      rw [lastLine_of_inline (Bool.eq_false_iff.mpr hnone), Nat.add_comm]

end Text

namespace Token

open Text

/-!
## The lexer on its way
-/

namespace Lexer

/-- The lexer stands behind a text, has counted it, and is not between a carriage return and its
line feed. -/
structure At (l : Lexer) (front : List Char) : Prop where
  place : l.place = Place.start.after front
  apart : Apart front l.rest

variable {l m : Lexer} {front : List Char}

theorem At.after (h : l.At front) {c : Char} {text : List Char} (hrest : l.rest = c :: text) :
    (l.after (item l.afterOperand c text)).At (front ++ (item l.afterOperand c text).taken) := by
  have hfollows := Follows.item l.afterOperand c text
  have hsplits : (item l.afterOperand c text).taken ++ (item l.afterOperand c text).rest =
      l.rest := by
    rw [hrest]
    exact splits_item l.afterOperand c text
  have hapart := h.apart
  rw [← hsplits] at hapart
  constructor
  · show l.place.after _ = _
    rw [h.place, after_append _ hapart.before]
  · exact h.apart.append hsplits hfollows.apart

/-- What holds of the lexer where it begins holds behind every passage. -/
theorem At.passes (h : l.At front) {ts : List Token} (hpasses : l.Passes ts m) :
    exists more, l.rest = more ++ m.rest ∧ m.At (front ++ more) ∧
      forall t, t ∈ ts -> exists front' rest, front ++ l.rest = front' ++ rest ∧
        t.place = Place.start.after front' := by
  induction hpasses generalizing front with
  | refl l => 
      refine ⟨[], rfl, by rwa [List.append_nil], fun t ht => absurd ht List.not_mem_nil⟩
  | @trivia l m c cs rest ts htext heq _ ih =>
      have hafter := h.after htext
      rw [heq] at hafter
      rcases ih hafter with ⟨more, hmore, hm, hts⟩
      have hmore : rest = more ++ m.rest := hmore
      refine ⟨c :: cs ++ more, ?_, ?_, fun t ht => ?_⟩
      · rw [htext, hmore, List.append_assoc]
        rfl
      · rwa [← List.append_assoc]
      · rcases hts t ht with ⟨front', rest', hsplit, hplace⟩
        refine ⟨front', rest', ?_, hplace⟩
        rw [← hsplit, htext, List.append_assoc]
        rfl
  | @token l m c cs rest ts kind htext heq _ ih =>
      have hafter := h.after htext
      rw [heq] at hafter
      rcases ih hafter with ⟨more, hmore, hm, hts⟩
      have hmore : rest = more ++ m.rest := hmore
      refine ⟨c :: cs ++ more, ?_, ?_, fun t ht => ?_⟩
      · rw [htext, hmore, List.append_assoc]
        rfl
      · rwa [← List.append_assoc]
      · rcases List.mem_cons.mp ht with rfl | ht
        · exact ⟨front, l.rest, rfl, h.place⟩
        · rcases hts t ht with ⟨front', rest', hsplit, hplace⟩
          refine ⟨front', rest', ?_, hplace⟩
          rw [← hsplit, htext, List.append_assoc]
          rfl

theorem run_error {e : LexicalError} (h : l.run.1 = .error e) :
    exists ts m c text, l.Passes ts m ∧ m.rest = c :: text ∧
      (item m.afterOperand c text).value = .fault e.fault ∧ e.place = m.place := by
  have hstops := run_stops l
  rw [h] at hstops
  generalize l.run.2 = last at hstops
  cases hstops with
  | fault hpasses hrest hvalue => exact ⟨_, _, _, _, hpasses, hrest, hvalue, rfl⟩

end Lexer

/-!
## Pieces that are no tokens
-/

inductive Offends : LexicalFault → List Char → Prop where
  | character {c : Char} (text : List Char) :
      Punctuator.longest? (c :: text) = none -> Offends (.unexpectedCharacter c) (c :: text)
  | string {quote : Char} {text : List Char} :
      quote = '"' ∨ quote = '\'' -> (stringTail quote text).value = none ->
      Offends .unterminatedString (quote :: text)
  | comment {text : List Char} :
      (blockCommentTail text).value = false -> Offends .unterminatedComment ('/' :: '*' :: text)
  | regExp {text : List Char} :
      (regExpTail text).value = none -> Offends .unterminatedRegExp ('/' :: text)
  | number {c : Char} {text lexeme rest : List Char} :
      startsNumber c text = true -> numericLiteral (c :: text) = ⟨none, lexeme, rest⟩ ->
      Offends (.invalidNumber (String.ofList lexeme)) (c :: text)

theorem offends_of_item {afterOperand : Bool} {c : Char} {text : List Char} {fault : LexicalFault}
    (h : (item afterOperand c text).value = .fault fault) : Offends fault (c :: text) := by
  unfold item at h
  by_cases hblank : isScriptBlank c = true
  · rw [if_pos hblank] at h
    cases h
  rw [if_neg hblank] at h
  by_cases hterminator : isLineTerminator c = true
  · rw [if_pos hterminator] at h
    unfold lineBreak at h
    split at h <;> cases h
  rw [if_neg hterminator] at h
  by_cases hline : (c = '/' && text.head? = some '/') = true
  · rw [if_pos hline] at h
    cases h
  rw [if_neg hline] at h
  by_cases hblock : (c = '/' && text.head? = some '*') = true
  · rw [if_pos hblock] at h
    rw [Bool.and_eq_true, decide_eq_true_eq, decide_eq_true_eq] at hblock
    rw [hblock.1, eq_cons_drop_of_head? hblock.2]
    generalize text.drop 1 = comment at h
    cases hclosed : (blockCommentTail comment).value with
    | true => simp [blockCommentItem, Reading.extend, Reading.map, hclosed] at h
    | false =>
        simp [blockCommentItem, Reading.extend, Reading.map, hclosed] at h
        rw [← h]
        exact .comment hclosed
  rw [if_neg hblock] at h
  by_cases hregExp : (c = '/' && !afterOperand) = true
  · rw [if_pos hregExp] at h
    rw [Bool.and_eq_true, decide_eq_true_eq] at hregExp
    rw [hregExp.1]
    cases hclosed : (regExpTail text).value with
    | some parts => simp [regExpItem, Reading.extend, Reading.map, hclosed] at h
    | none =>
        simp [regExpItem, Reading.extend, Reading.map, hclosed] at h
        rw [← h]
        exact .regExp hclosed
  rw [if_neg hregExp] at h
  by_cases hquote : (c = '"' || c = '\'') = true
  · rw [if_pos hquote] at h
    rw [Bool.or_eq_true, decide_eq_true_eq, decide_eq_true_eq] at hquote
    cases hclosed : (stringTail c text).value with
    | some value => simp [stringItem, Reading.extend, Reading.map, hclosed] at h
    | none =>
        simp [stringItem, Reading.extend, Reading.map, hclosed] at h
        rw [← h]
        exact .string hquote hclosed
  rw [if_neg hquote] at h
  by_cases hnumber : startsNumber c text = true
  · rw [if_pos hnumber] at h
    cases hliteral : numericLiteral (c :: text) with
    | mk value lexeme rest =>
        cases value with
        | some value => simp [numberItem, Reading.map, hliteral] at h
        | none =>
            simp [numberItem, Reading.map, hliteral] at h
            rw [← h]
            exact .number hnumber hliteral
  rw [if_neg hnumber] at h
  by_cases hword : isWordStart c = true
  · rw [if_pos hword] at h
    cases h
  rw [if_neg hword] at h
  unfold punctuatorItem at h
  cases hmark : Punctuator.longest? (c :: text) with
  | some mark =>
      rw [hmark] at h
      cases h
  | none =>
      rw [hmark] at h
      cases h
      exact .character text hmark

/-- The places of tokens and of errors are those that a reader counts in the text. -/
theorem tokensOf_counts (text : String) :
    match tokensOf text with
    | .ok stream => forall t, t ∈ stream.toList -> t.place.Counts text.toList
    | .error e => e.place.Counts text.toList ∧
        Offends e.fault (dropBytes e.place.offset text.toList) := by
  have hstart : (Lexer.ofText text).At [] := ⟨rfl, apart_nil _⟩
  cases htokens : tokensOf text with
  | ok stream =>
      intro t ht
      rcases tokensOf_ok_iff.mp htokens with ⟨m, hpasses, hend, hstop⟩
      rcases hstart.passes hpasses with ⟨front, hfront, hm, hts⟩
      have hsplit : exists front' rest, text.toList = front' ++ rest ∧
          t.place = Place.start.after front' := by
        rcases List.mem_append.mp ht with ht | ht
        · exact hts t ht
        · rw [List.mem_singleton.mp ht, hstop]
          exact ⟨front, m.rest, hfront, hm.place⟩
      rcases hsplit with ⟨front', rest, hsplit, hplace⟩
      rw [hsplit, hplace]
      exact counts_after front' rest
  | error e =>
      have hrun : (Lexer.ofText text).run.1 = .error e := by
        unfold tokensOf Lexer.tokenize at htokens
        dsimp only at htokens
        cases hrun : (Lexer.ofText text).run.1 with
        | ok pair =>
            rw [hrun] at htokens
            cases htokens
        | error e' =>
            rw [hrun] at htokens
            cases htokens
            rfl
      rcases Lexer.run_error hrun with ⟨ts, m, c, more, hpasses, hrest, hvalue, hplace⟩
      rcases hstart.passes hpasses with ⟨front, hfront, hm, _⟩
      have hfront : text.toList = front ++ m.rest := hfront
      have hcounts := counts_after front m.rest
      have hbehind : dropBytes (Place.start.after front).offset (front ++ m.rest) = m.rest := by
        rw [offset_after]
        exact (congrArg (dropBytes · _) (Nat.zero_add _)).trans (dropBytes_append front m.rest)
      show e.place.Counts text.toList ∧ Offends e.fault (dropBytes e.place.offset text.toList)
      have hplace : e.place = Place.start.after front := hplace.trans hm.place
      rw [hplace, hfront, hbehind, hrest]
      rw [hrest] at hcounts
      exact ⟨hcounts, offends_of_item hvalue⟩

end Token
end ScriptHints

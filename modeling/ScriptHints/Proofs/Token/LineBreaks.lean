import ScriptHints.Proofs.Token.Passage

/-!
# Line ends between tokens

A token tells whether a line ended between the token before it and itself. On the way from one
token to the next the lexer keeps in mind that it has passed the end of a line, alone or in a
comment, and the next token takes that along. What stands inside a token does not count.
-/

namespace ScriptHints
namespace Token

open Text

def TokenStream.gap (stream : TokenStream) (text : String) (i : Nat) : List Char :=
  slice (stream.gapStart i) (stream.get i).place.offset text.toList

namespace Lexer

variable {l m : Lexer}

theorem newline_after_trivia (l : Lexer) (taken rest : List Char) :
    (l.after ⟨.trivia, taken, rest⟩).newline = (l.newline || taken.any isLineTerminator) := rfl

/-- A passage without tokens keeps the line ends that it passes in mind. -/
theorem Passes.newline_of_skip (h : l.Passes [] m) :
    exists gap, l.rest = gap ++ m.rest ∧
      m.place.offset = l.place.offset + String.utf8Len gap ∧
      m.newline = (l.newline || gap.any isLineTerminator) := by
  generalize hnone : ([] : List Token) = ts at h
  induction h with
  | refl l => exact ⟨[], rfl, rfl, by rw [List.any_nil, Bool.or_false]⟩
  | @trivia l m c cs rest ts htext _ _ ih =>
      rcases ih hnone with ⟨gap, hrest, hoffset, hnewline⟩
      have hrest : rest = gap ++ m.rest := hrest
      refine ⟨c :: cs ++ gap, ?_, ?_, ?_⟩
      · rw [htext, hrest, ← List.append_assoc]
        rfl
      · rw [hoffset, String.utf8Len_append, ← Nat.add_assoc]
        exact congrArg (· + _) (offset_after l.place (c :: cs))
      · rw [hnewline, newline_after_trivia, List.any_append, Bool.or_assoc]
  | token => cases hnone

end Lexer

variable {text : String} {stream : TokenStream}

theorem exists_behind (h : tokensOf text = .ok stream) {i : Nat} (hi : i ≤ stream.size) :
    exists k m, (Lexer.ofText text).Passes (stream.body.toList.take i) k ∧
      k.Passes (stream.body.toList.drop i) m ∧ m.rest = [] ∧
      stream.stop = m.tokenHere .endOfText [] ∧ k.place.offset = stream.gapStart i ∧
      k.newline = false := by
  rcases tokensOf_ok_iff.mp h with ⟨m, hpasses, hend, hstop⟩
  cases i with
  | zero => exact ⟨Lexer.ofText text, m, .refl _, hpasses, hend, hstop, rfl, rfl⟩
  | succ i =>
      have hlength : i < stream.body.toList.length := hi
      rw [← List.take_append_drop i stream.body.toList, List.drop_eq_getElem_cons hlength,
        stream.getElem_body] at hpasses
      rcases hpasses.split with ⟨k, hbefore, hbehind⟩
      rcases hbehind.uncons with ⟨n, kind, c, cs, rest, hskip, htext, heq, hfirst, hmore⟩
      refine ⟨n.after ⟨.token kind, c :: cs, rest⟩, m, ?_, hmore, hend, hstop, ?_, rfl⟩
      · rw [stream.take_body_succ hi, hfirst]
        exact hbefore.trans (hskip.trans (.token kind htext heq (.refl _)))
      · show (n.place.after (c :: cs)).offset = (stream.get i).stopOffset
        rw [hfirst, stopOffset, offset_after, utf8ByteSize_eq]
        exact congrArg (n.place.offset + String.utf8Len ·) String.toList_ofList.symm

/-- A token is made where a passage behind the token before it has skipped everything else. -/
theorem exists_skip (h : tokensOf text = .ok stream) {i : Nat} (hi : i ≤ stream.size) :
    exists k n, (Lexer.ofText text).Passes (stream.body.toList.take i) k ∧ k.Passes [] n ∧
      k.place.offset = stream.gapStart i ∧ k.newline = false ∧
      n.place = (stream.get i).place ∧ n.newline = (stream.get i).newlineBefore := by
  rcases exists_behind h hi with ⟨k, m, hbefore, hbehind, _, hstop, hoffset, hnewline⟩
  rcases Nat.lt_or_eq_of_le hi with hlt | rfl
  · have hlength : i < stream.body.toList.length := hlt
    rw [List.drop_eq_getElem_cons hlength, stream.getElem_body] at hbehind
    rcases hbehind.uncons with ⟨n, kind, c, cs, rest, hskip, _, _, hfirst, _⟩
    exact ⟨k, n, hbefore, hskip, hoffset, hnewline, by rw [hfirst]; rfl, by rw [hfirst]; rfl⟩
  · have hnone : stream.body.toList.drop stream.size = [] :=
      List.drop_eq_nil_of_le (Nat.le_refl _)
    rw [hnone] at hbehind
    refine ⟨k, m, hbefore, hbehind, hoffset, hnewline, ?_, ?_⟩
    · rw [stream.get_of_size_le (Nat.le_refl _), hstop]
      rfl
    · rw [stream.get_of_size_le (Nat.le_refl _), hstop]
      rfl

/-- A line has ended before a token just where a line terminator stands between it and the
token before it, or the beginning of the text. -/
theorem newlineBefore_iff_gap (h : tokensOf text = .ok stream) {i : Nat} (hi : i ≤ stream.size) :
    (stream.get i).newlineBefore = true ↔
      exists c, c ∈ stream.gap text i ∧ isLineTerminator c = true := by
  rcases exists_skip h hi with ⟨k, n, hbefore, hskip, hoffset, hnewline, hplace, hflag⟩
  rcases hbefore.exists_front with ⟨front, hfront, hbytes, _⟩
  rcases hskip.newline_of_skip with ⟨gap, hrest, hfurther, hpassed⟩
  have hfront : text.toList = front ++ (gap ++ n.rest) := by
    rw [← hrest]
    exact hfront
  have hbytes : k.place.offset = String.utf8Len front := by
    rw [hbytes]
    exact Nat.zero_add _
  have hgap : stream.gap text i = gap := by
    unfold TokenStream.gap
    rw [← hoffset, ← hplace, hfurther, hbytes, hfront]
    exact slice_append front gap n.rest
  rw [← hflag, hpassed, hnewline, Bool.false_or, hgap]
  exact List.any_eq_true

/-- A string that goes on in a second line, and tokens with comments between them. -/
def continuedString : TokenStream :=
  { body := #[⟨.string "ab", "'a\\\nb'", ⟨1, 1, 0⟩, false⟩,
      ⟨.punctuator .plus, "+", ⟨2, 4, 7⟩, false⟩, ⟨.identifier, "c", ⟨3, 4, 14⟩, true⟩]
    stop := ⟨.endOfText, "", ⟨4, 1, 20⟩, true⟩ }

theorem tokensOf_continuedString :
    tokensOf "'a\\\nb' +/*\n*/ c// d\n" = .ok continuedString := by
  cbv

theorem newlineBefore_iff_gap_continuedString :
    tokensOf "'a\\\nb' +/*\n*/ c// d\n" = .ok continuedString ∧
      (continuedString.get 1).newlineBefore = false ∧
      ((continuedString.get 1).newlineBefore = true ↔
        exists c, c ∈ continuedString.gap "'a\\\nb' +/*\n*/ c// d\n" 1 ∧
          isLineTerminator c = true) ∧
      (continuedString.get 2).newlineBefore = true ∧
      ((continuedString.get 2).newlineBefore = true ↔
        exists c, c ∈ continuedString.gap "'a\\\nb' +/*\n*/ c// d\n" 2 ∧
          isLineTerminator c = true) :=
  ⟨tokensOf_continuedString, rfl, newlineBefore_iff_gap tokensOf_continuedString (by decide), rfl,
    newlineBefore_iff_gap tokensOf_continuedString (by decide)⟩

end Token
end ScriptHints

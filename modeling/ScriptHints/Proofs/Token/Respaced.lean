import ScriptHints.Proofs.Token.Passage

/-!
# Tokens with blanks between them

A token is read again from its lexeme alone, whatever stood around it. The lexemes of the tokens
of a text, with blanks between them, are read as the same tokens, now all on one line.
-/

namespace ScriptHints
namespace Token

structure Unplaced where
  kind : TokenKind
  lexeme : String
  newlineBefore : Bool
deriving DecidableEq, Repr

def Unplaced.of (t : Token) : Unplaced :=
  ⟨t.kind, t.lexeme, t.newlineBefore⟩

namespace TokenStream

def unplaced (stream : TokenStream) : List Unplaced :=
  stream.toList.map Unplaced.of

variable {stream stream' : TokenStream}

theorem get_eq_toList (stream : TokenStream) (p : Nat) :
    stream.get p = stream.toList[p]?.getD stream.stop := by
  unfold get toList
  rcases Nat.lt_or_ge p stream.body.size with hlt | hge
  · rw [List.getElem?_append_left (by simpa using hlt), Array.getElem?_toList]
  · rw [Array.getElem?_eq_none hge, List.getElem?_append_right (by simpa using hge)]
    cases p - stream.body.toList.length <;> rfl

theorem size_eq_of_unplaced (h : stream'.unplaced = stream.unplaced) :
    stream'.size = stream.size := by
  have hlength := congrArg List.length h
  simpa [unplaced, toList, size] using hlength

theorem get_of_unplaced (h : stream'.unplaced = stream.unplaced) (p : Nat) :
    Unplaced.of (stream'.get p) = Unplaced.of (stream.get p) := by
  have hstop : Unplaced.of stream'.stop = Unplaced.of stream.stop := by
    have hlast := congrArg List.getLast? h
    simpa [unplaced, toList] using hlast
  rw [get_eq_toList, get_eq_toList, ← Option.getD_map Unplaced.of, ← Option.getD_map Unplaced.of,
    ← List.getElem?_map, ← List.getElem?_map, hstop]
  exact congrArg (fun tokens => tokens[p]?.getD (Unplaced.of stream.stop)) h

end TokenStream

def spaced (ts : List Token) : List Char :=
  ts.flatMap fun t => t.lexeme.toList ++ [' ']

theorem intercalate_lexemes {stop : Token} (ts : List Token) (h : stop.lexeme = "") :
    " ".intercalate ((ts ++ [stop]).map (·.lexeme)) = String.ofList (spaced ts) := by
  induction ts with
  | nil =>
      show " ".intercalate [stop.lexeme] = _
      rw [h]
      rfl
  | cons t ts ih =>
      rw [List.cons_append, List.map_cons, String.intercalate_cons_of_ne_nil (by simp), ih]
      apply String.toList_inj.mp
      simp [spaced]

/--
A passage over the lexemes of tokens, each with a blank behind it, is the same passage.

No line ends in it, so no token has a line end before it.
-/
theorem Lexer.Passes.respaced {l m : Lexer} {ts : List Token} (h : l.Passes ts m) {l' : Lexer}
    (hrest : l'.rest = spaced ts) (hafter : l'.afterOperand = l.afterOperand)
    (hnewline : l'.newline = false) :
    exists ts' m', l'.Passes ts' m' ∧ m'.rest = [] ∧ m'.newline = false ∧
      ts'.map Unplaced.of = ts.map fun t => ⟨t.kind, t.lexeme, false⟩ := by
  induction h generalizing l' with
  | refl l => exact ⟨[], l', .refl l', hrest, hnewline, rfl⟩
  | trivia _ _ _ ih => exact ih hrest hafter hnewline
  | @token l m c cs rest ts kind _ heq _ ih =>
      have hitem := item_token_before heq (begins_of_apart (c := ' ') rfl rest (spaced ts))
      have hblank (afterOperand : Bool) :
          item afterOperand ' ' (spaced ts) = ⟨.trivia, [' '], spaced ts⟩ := item_of_blank rfl _
      rw [← hafter] at hitem
      have htext : l'.rest = c :: (cs ++ ' ' :: spaced ts) := by
        rw [hrest]
        simp [spaced, tokenHere]
      let l₁ := l'.after ⟨.token kind, c :: cs, ' ' :: spaced ts⟩
      let l₂ := l₁.after ⟨.trivia, [' '], spaced ts⟩
      have hrest₂ : l₂.rest = spaced ts := rfl
      rcases ih hrest₂ rfl rfl with ⟨ts', m', hpasses, hend, hline, hsame⟩
      have hskips : l₁.Passes ts' m' := .trivia rfl (hblank l₁.afterOperand) hpasses
      refine ⟨_, m', .token kind htext hitem hskips, hend, hline, ?_⟩
      rw [List.map_cons, List.map_cons, hsame]
      simp [Unplaced.of, tokenHere, hnewline]

/-- The lexemes of the tokens of a text, joined by single blanks, are read as the same tokens,
and no line ends between them. -/
theorem tokensOf_spaced {text : String} {stream : TokenStream} (h : tokensOf text = .ok stream) :
    exists stream', tokensOf (" ".intercalate (stream.toList.map (·.lexeme))) = .ok stream' ∧
      stream'.unplaced = stream.toList.map fun t => ⟨t.kind, t.lexeme, false⟩ := by
  rcases tokensOf_ok_iff.mp h with ⟨m, hpasses, _, hstop⟩
  have htext : (Lexer.ofText (String.ofList (spaced stream.body.toList))).rest =
      spaced stream.body.toList := by simp [Lexer.ofText]
  rcases hpasses.respaced htext rfl rfl with ⟨ts', m', hpasses', hend, hline, hsame⟩
  have hempty : stream.stop.lexeme = "" := by
    rw [hstop]
    rfl
  refine ⟨⟨ts'.toArray, m'.tokenHere .endOfText []⟩, ?_, ?_⟩
  · rw [TokenStream.toList, intercalate_lexemes _ hempty]
    exact tokensOf_ok_iff.mpr ⟨m', hpasses', hend, rfl⟩
  · simp [TokenStream.unplaced, TokenStream.toList, hsame, hstop, Unplaced.of,
      Lexer.tokenHere, hline]

/-- The tokens of a division, then of a regular expression on a line of its own. -/
def divisionThenRegexp : TokenStream :=
  { body := #[⟨.identifier, "a", ⟨1, 1, 0⟩, false⟩, ⟨.punctuator .slash, "/", ⟨1, 2, 1⟩, false⟩,
      ⟨.identifier, "b", ⟨1, 9, 8⟩, false⟩, ⟨.punctuator .comma, ",", ⟨1, 10, 9⟩, false⟩,
      ⟨.regExp "c" "g", "/c/g", ⟨2, 1, 11⟩, true⟩]
    stop := ⟨.endOfText, "", ⟨2, 5, 15⟩, false⟩ }

theorem tokensOf_spaced_divisionThenRegexp :
    tokensOf "a/ /* */b,\n/c/g" = .ok divisionThenRegexp ∧
      exists stream', tokensOf "a / b , /c/g " = .ok stream' ∧
        stream'.unplaced =
          divisionThenRegexp.toList.map fun t => ⟨t.kind, t.lexeme, false⟩ := by
  have h : tokensOf "a/ /* */b,\n/c/g" = .ok divisionThenRegexp := by cbv
  exact ⟨h, tokensOf_spaced h⟩

end Token
end ScriptHints

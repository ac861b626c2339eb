import ScriptHints.Proofs.Syntax.Spans
import ScriptHints.Proofs.Token.Lossless

/-!
# Places of tokens

Lines and columns are ordered line by line. In this order a token ends before the next one
begins, even if line breaks stand inside it: its span is counted as if it stood on one line,
and the next token is on a later one then.
-/

namespace ScriptHints

namespace Text

def Place.mark (p : Place) : Nat ×ₗ Nat :=
  toLex (p.line, p.column)

theorem Place.mark_after (p : Place) (text : List Char) :
    toLex (p.line, p.column + text.length) ≤ (p.after text).mark := by
  have hlater (line column column' : Nat) :
      toLex (line, column) ≤ toLex (line + 1, column') :=
    Prod.Lex.toLex_le_toLex.mpr (.inl (Nat.lt_succ_self _))
  fun_induction Place.after p text with
  | case1 p => exact le_refl _
  | case2 p text ih => exact (hlater _ _ _).trans ih
  | case3 p c text _ _ ih => exact (hlater _ _ _).trans ih
  | case4 p c text _ _ ih =>
      rw [List.length_cons, ← Nat.add_assoc, Nat.add_right_comm]
      exact ih

theorem Place.mark_le_after (p : Place) (text : List Char) : p.mark ≤ (p.after text).mark := by
  refine le_trans ?_ (p.mark_after text)
  exact Prod.Lex.toLex_le_toLex.mpr (.inr ⟨rfl, Nat.le_add_right _ _⟩)

end Text

namespace Token

open Text Syntax

theorem start_le_finish_ofToken (t : Token) :
    (Span.ofToken t).start ≤ (Span.ofToken t).finish := by
  rw [Span.start, Span.finish, Prod.Lex.toLex_le_toLex]
  exact .inr ⟨rfl, Nat.le_add_right _ _⟩

theorem finish_ofToken_lt {t : Token} (h : t.lexeme ≠ "") :
    (Span.ofToken t).finish < (t.place.after t.lexeme.toList).mark := by
  refine lt_of_lt_of_le ?_ (t.place.mark_after t.lexeme.toList)
  have hlength : t.lexeme.length ≠ 0 := by
    intro hzero
    exact h (String.length_eq_zero_iff.mp hzero)
  rw [Span.finish, Prod.Lex.toLex_lt_toLex]
  refine .inr ⟨rfl, ?_⟩
  show t.place.column + (max t.lexeme.length 1 - 1) < t.place.column + t.lexeme.toList.length
  rw [String.length_toList]
  omega

theorem Lexer.finish_tokenHere_lt (l : Lexer) (kind : TokenKind) {r : Reading Item}
    (hsome : r.taken ≠ []) :
    (Span.ofToken (l.tokenHere kind r.taken)).finish < (l.after r).place.mark := by
  have hlexeme : (l.tokenHere kind r.taken).lexeme.toList = r.taken := String.toList_ofList
  have hne : (l.tokenHere kind r.taken).lexeme ≠ "" := by
    intro hempty
    apply hsome
    rw [← hlexeme, hempty]
    rfl
  have hlt := finish_ofToken_lt hne
  rw [hlexeme] at hlt
  exact hlt

/-- Every token is at or behind the place of the lexer, and ends before all later ones. -/
theorem Lexer.run_placed (l : Lexer) {body : List Token} {stop : Token}
    (h : l.run.1 = .ok (body, stop)) :
    (forall t, t ∈ body -> l.place.mark ≤ (Span.ofToken t).start) ∧
      body.Pairwise fun t t' => (Span.ofToken t).finish < (Span.ofToken t').start := by
  fun_induction Lexer.run l generalizing body stop with
  | case1 l hrest =>
      cases h
      constructor
      · intro t ht
        cases ht
      · exact .nil
  | case2 => cases h
  | case3 l c text hrest found hvalue =>
      rename_i ih
      rcases ih h with ⟨hbehind, hordered⟩
      refine ⟨?_, hordered⟩
      intro t ht
      exact (l.place.mark_le_after found.taken).trans (hbehind t ht)
  | case4 l c text hrest found kind hvalue result last hrun =>
      rename_i ih
      cases hresult : result with
      | error e =>
          rw [hresult] at h
          cases h
      | ok pair =>
          rw [hresult] at h
          cases h
          rw [hresult] at hrun
          rcases ih (by rw [hrun]) with ⟨hbehind, hordered⟩
          have hfinish := l.finish_tokenHere_lt kind (taken_ne_nil_of_token hvalue)
          constructor
          · intro t ht
            rcases List.mem_cons.mp ht with hhere | hlater
            · rw [hhere]
              exact le_refl _
            · exact (l.place.mark_le_after found.taken).trans (hbehind t hlater)
          · refine .cons ?_ hordered
            intro t ht
            exact lt_of_lt_of_le hfinish (hbehind t ht)

structure TokenStream.Placed (stream : TokenStream) : Prop where
  line_ne_zero : forall {i}, i < stream.size -> (stream.get i).place.line ≠ 0
  ordered : forall {i j}, i < j -> j < stream.size ->
    (Span.ofToken (stream.get i)).finish < (Span.ofToken (stream.get j)).start

def TokenStream.Inside (stream : TokenStream) (line column : Nat) : Prop :=
  ¬ (line = stream.stop.place.line ∧ column = stream.stop.place.column)

theorem placed_tokensOf {text : String} {stream : TokenStream} (h : tokensOf text = .ok stream) :
    stream.Placed := by
  unfold tokensOf Lexer.tokenize at h
  cases hrun : (Lexer.ofText text).run.1 with
  | error e =>
      simp only [hrun] at h
      cases h
  | ok pair =>
      simp only [hrun] at h
      cases h
      rcases Lexer.run_placed _ hrun with ⟨hbehind, hordered⟩
      have hget (i : Nat) (hi : i < pair.1.length) :
          TokenStream.get { body := pair.1.toArray, stop := pair.2 } i = pair.1[i] := by
        simp [TokenStream.get, hi]
      constructor
      · intro i hi
        have hi : i < pair.1.length := by simpa [TokenStream.size] using hi
        rw [hget i hi]
        have hline : 1 < pair.1[i].place.line ∨
            (1 = pair.1[i].place.line ∧ 1 ≤ pair.1[i].place.column) :=
          Prod.Lex.toLex_le_toLex.mp (hbehind _ (List.getElem_mem hi))
        omega
      · intro i j hij hj
        have hj : j < pair.1.length := by simpa [TokenStream.size] using hj
        rw [hget i (Nat.lt_trans hij hj), hget j hj]
        exact List.pairwise_iff_getElem.mp hordered i j (Nat.lt_trans hij hj) hj hij

namespace TokenStream.Placed

variable {stream : TokenStream} (h : stream.Placed)
include h

theorem start_le {i j : Nat} (hij : i ≤ j) (hj : j < stream.size) :
    (Span.ofToken (stream.get i)).start ≤ (Span.ofToken (stream.get j)).start := by
  rcases Nat.lt_or_eq_of_le hij with hlt | heq
  · exact (start_le_finish_ofToken _).trans (le_of_lt (h.ordered hlt hj))
  · rw [heq]

theorem finish_le {i j : Nat} (hij : i ≤ j) (hj : j < stream.size) :
    (Span.ofToken (stream.get i)).finish ≤ (Span.ofToken (stream.get j)).finish := by
  rcases Nat.lt_or_eq_of_le hij with hlt | heq
  · exact (le_of_lt (h.ordered hlt hj)).trans (start_le_finish_ofToken _)
  · rw [heq]

/-- The union of two tokens begins with the one in front and ends with the one behind. -/
theorem union_ofToken {i j : Nat} (hij : i ≤ j) (hj : j < stream.size) :
    let span := Span.union (Span.ofToken (stream.get i)) (Span.ofToken (stream.get j))
    span.line ≠ 0 ∧ span.start = (Span.ofToken (stream.get i)).start ∧
      span.finish = (Span.ofToken (stream.get j)).finish :=
  Span.union_of_le (h.line_ne_zero (Nat.lt_of_le_of_lt hij hj)) (h.line_ne_zero hj)
    (h.start_le hij hj) (h.finish_le hij hj)

end TokenStream.Placed

end Token
end ScriptHints

import Mathlib
import ScriptHints.Proofs.Token.Ended
import ScriptHints.Proofs.Token.Local

/-!
# Nothing is lost between the tokens

The tokens of a text stand in it one behind the other, and between two of them there is
nothing but blanks, line terminators and comments. Every token is the part of the text at
its offset, and the token for the end of the text stands behind all of it.
-/

namespace ScriptHints

open Text

namespace Token

/-!
## Gaps
-/

/--
A text between tokens, and what comes behind it.

A line comment goes up to a line terminator or to the end of the whole text; a block
comment ends with the first mark that closes it.
-/
inductive Gap : List Char → List Char → Prop where
  | nil (rest : List Char) : Gap [] rest
  | blank {c : Char} {gap rest : List Char} :
      isScriptBlank c = true -> Gap gap rest -> Gap (c :: gap) rest
  | terminator {c : Char} {gap rest : List Char} :
      isLineTerminator c = true -> Gap gap rest -> Gap (c :: gap) rest
  | lineComment {inside gap rest : List Char} :
      (forall c, c ∈ inside -> isLineTerminator c = false) ->
      (forall c, (gap ++ rest).head? = some c -> isLineTerminator c = true) ->
      Gap gap rest -> Gap ('/' :: '/' :: (inside ++ gap)) rest
  | blockComment {inside gap rest : List Char} :
      ¬ ['*', '/'] <:+: inside ->
      Gap gap rest -> Gap ('/' :: '*' :: (inside ++ '*' :: '/' :: gap)) rest

theorem blockCommentTail_closed {text : List Char} (h : (blockCommentTail text).value = true) :
    exists inside, (blockCommentTail text).taken = inside ++ ['*', '/'] ∧
      ¬ ['*', '/'] <:+: inside := by
  fun_induction blockCommentTail text with
  | case1 => cases h
  | case2 text => exact ⟨[], rfl, by simp⟩
  | case3 c text hopen ih =>
      rcases ih h with ⟨inside, htaken, hinside⟩
      refine ⟨c :: inside, ?_, ?_⟩
      · show c :: (blockCommentTail text).taken = _
        rw [htaken]
        rfl
      · intro hclosing
        rcases List.infix_cons_iff.mp hclosing with hprefix | hinfix
        · -- The closing mark would begin at this character, but then the comment ends here.
          rcases List.cons_prefix_cons.mp hprefix with ⟨hstar, hslash⟩
          have hsplits := splits_blockCommentTail text
          unfold Reading.Splits at hsplits
          cases inside with
          | nil => exact absurd hslash (by simp)
          | cons d inside =>
              rcases List.cons_prefix_cons.mp hslash with ⟨hd, _⟩
              rw [htaken, List.cons_append, List.cons_append, ← hd] at hsplits
              exact hopen _ hstar.symm hsplits.symm
        · exact hinside hinfix

theorem head?_lineComment_rest (text : List Char) (c : Char)
    (h : (lineComment text).rest.head? = some c) : isLineTerminator c = true := by
  have hstops := List.head?_dropWhile_not (fun c => !isLineTerminator c) text
  have h : (List.dropWhile (fun c => !isLineTerminator c) text).head? = some c := h
  rw [h] at hstops
  simpa using hstops

theorem Gap.item {afterOperand : Bool} {c : Char} {text gap rest : List Char}
    (hvalue : (item afterOperand c text).value = .trivia)
    (hrest : (Token.item afterOperand c text).rest = gap ++ rest) (hgap : Gap gap rest) :
    Gap ((Token.item afterOperand c text).taken ++ gap) rest := by
  have hskipped := item_skipped hvalue
  generalize Token.item afterOperand c text = r at hrest hskipped ⊢
  cases hskipped with
  | blank hblank => exact .blank hblank hgap
  | lineBreak hterminator =>
      unfold lineBreak
      split
      next => exact .terminator (by decide) (.terminator (by decide) hgap)
      next => exact .terminator hterminator hgap
  | lineComment _ _ =>
      generalize text.drop 1 = more at hrest ⊢
      have hrest : (Token.lineComment more).rest = gap ++ rest := hrest
      have hinside : forall d, d ∈ (Token.lineComment more).taken ->
        isLineTerminator d = false := by
        intro d hd
        simpa using List.mem_takeWhile_imp hd
      refine .lineComment hinside ?_ hgap
      intro d hd
      rw [← hrest] at hd
      exact head?_lineComment_rest _ d hd
  | blockComment _ _ hclosed =>
      generalize text.drop 1 = more at hclosed ⊢
      rcases blockCommentTail_closed hclosed with ⟨inside, htaken, hinside⟩
      show Gap ('/' :: '*' :: ((blockCommentTail more).taken ++ gap)) rest
      rw [htaken, List.append_assoc]
      exact .blockComment hinside hgap

/-!
## Texts laid out as tokens
-/

theorem utf8ByteSize_eq (text : String) : text.utf8ByteSize = String.utf8Len text.toList := by
  rw [← String.utf8ByteSize_ofList, String.ofList_toList]

theorem offset_after (p : Place) (text : List Char) :
    (p.after text).offset = p.offset + String.utf8Len text := by
  fun_induction Place.after p text with
  | case1 => rfl
  | case2 p text ih =>
      rw [ih]
      have hreturn : '\r'.utf8Size = 1 := by decide
      have hfeed : '\n'.utf8Size = 1 := by decide
      simp only [String.utf8Len_cons, hreturn, hfeed]
      omega
  | case3 p c text _ _ ih =>
      rw [ih, String.utf8Len_cons]
      dsimp only
      omega
  | case4 p c text _ _ ih =>
      rw [ih, String.utf8Len_cons]
      dsimp only
      omega

/-- Tokens and gaps make up a text that begins at an offset; the end of the text is the last
of the tokens. -/
inductive Laid : Nat → List Token → List Char → Prop where
  | stop {offset : Nat} {t : Token} {gap : List Char} :
      Gap gap [] -> t.kind = .endOfText -> t.lexeme = "" ->
      t.place.offset = offset + String.utf8Len gap ->
      Laid offset [t] gap
  | token {offset : Nat} {t : Token} {ts : List Token} {gap text : List Char} :
      Gap gap (t.lexeme.toList ++ text) -> t.kind ≠ .endOfText -> t.lexeme ≠ "" ->
      t.place.offset = offset + String.utf8Len gap ->
      Laid t.stopOffset ts text ->
      Laid offset (t :: ts) (gap ++ (t.lexeme.toList ++ text))

theorem Laid.item {afterOperand : Bool} {c : Char} {text : List Char} {offset : Nat}
    {ts : List Token} (hvalue : (item afterOperand c text).value = .trivia)
    (h : Laid (offset + String.utf8Len (Token.item afterOperand c text).taken) ts
      (Token.item afterOperand c text).rest) :
    Laid offset ts (c :: text) := by
  have hsplits : (Token.item afterOperand c text).taken ++
      (Token.item afterOperand c text).rest = c :: text := splits_item afterOperand c text
  rw [← hsplits]
  generalize hrest : (Token.item afterOperand c text).rest = rest at h
  cases h with
  | stop hgap hkind hlexeme hoffset =>
      have hrest : (Token.item afterOperand c text).rest = rest ++ [] := by
        rw [hrest, List.append_nil]
      refine .stop (hgap.item hvalue hrest) hkind hlexeme ?_
      rw [hoffset, String.utf8Len_append]
      omega
  | token hgap hkind hlexeme hoffset hmore =>
      rw [← List.append_assoc]
      refine .token (hgap.item hvalue hrest) hkind hlexeme ?_ hmore
      rw [hoffset, String.utf8Len_append]
      omega

theorem Laid.tokenHere {l : Lexer} {r : Reading Item} {kind : TokenKind} {ts : List Token}
    (h : Laid (l.after r).place.offset ts r.rest) (hkind : kind ≠ .endOfText)
    (hsome : r.taken ≠ []) :
    Laid l.place.offset (l.tokenHere kind r.taken :: ts) (r.taken ++ r.rest) := by
  have hlexeme : (l.tokenHere kind r.taken).lexeme.toList = r.taken := String.toList_ofList
  have hafter : (l.after r).place.offset = l.place.offset + String.utf8Len r.taken :=
    offset_after l.place r.taken
  have hstop : (l.tokenHere kind r.taken).stopOffset = (l.after r).place.offset := by
    rw [hafter, stopOffset, utf8ByteSize_eq, hlexeme]
    rfl
  rw [← hstop] at h
  have hne : (l.tokenHere kind r.taken).lexeme ≠ "" := by
    intro hempty
    apply hsome
    rw [← hlexeme, hempty]
    rfl
  have hlaid : Laid l.place.offset (l.tokenHere kind r.taken :: ts)
      ([] ++ ((l.tokenHere kind r.taken).lexeme.toList ++ r.rest)) :=
    .token (.nil _) hkind hne rfl h
  rw [hlexeme] at hlaid
  exact hlaid

theorem Lexer.run_laid (l : Lexer) {body : List Token} {stop : Token}
    (h : l.run.1 = .ok (body, stop)) : Laid l.place.offset (body ++ [stop]) l.rest := by
  fun_induction Lexer.run l generalizing body stop with
  | case1 l hrest =>
      cases h
      rw [hrest]
      exact .stop (.nil []) rfl rfl rfl
  | case2 => cases h
  | case3 l c text hrest found hvalue =>
      rename_i ih
      rw [hrest]
      have hmore := ih h
      have hoffset : (l.after found).place.offset =
          l.place.offset + String.utf8Len found.taken := offset_after l.place found.taken
      rw [hoffset] at hmore
      exact hmore.item hvalue
  | case4 l c text hrest found kind hvalue result last hrun =>
      rename_i ih
      cases hresult : result with
      | error e =>
          rw [hresult] at h
          cases h
      | ok pair =>
          rw [hresult] at h
          cases h
          rw [hresult] at hrun
          have hmore := ih (by rw [hrun])
          have hsplits : found.taken ++ found.rest = c :: text := splits_item l.afterOperand c text
          have hsome : found.taken ≠ [] := taken_ne_nil_of_token hvalue
          have hkind : kind ≠ .endOfText := by
            intro hend
            rw [hend] at hvalue
            exact item_ne_endOfText l.afterOperand c text hvalue
          rw [hrest, ← hsplits]
          exact hmore.tokenHere hkind hsome

/-!
## Where a token stands
-/

/-- A token stands in a text behind the first bytes of it, with only a gap before it. -/
def StandsBehind (text : List Char) (bytes : Nat) (t : Token) : Prop :=
  exists front gap back, text = front ++ (gap ++ (t.lexeme.toList ++ back)) ∧
    String.utf8Len front = bytes ∧ String.utf8Len (front ++ gap) = t.place.offset ∧
    Gap gap (t.lexeme.toList ++ back)

theorem StandsBehind.le_offset {text : List Char} {bytes : Nat} {t : Token}
    (h : StandsBehind text bytes t) : bytes ≤ t.place.offset := by
  rcases h with ⟨front, gap, back, _, hfront, hoffset, _⟩
  rw [← hfront, ← hoffset, String.utf8Len_append]
  omega

theorem dropBytes_add_append (front text : List Char) (more : Nat) :
    dropBytes (String.utf8Len front + more) (front ++ text) = dropBytes more text := by
  induction front with
  | nil => simp
  | cons c front ih =>
      have hpos := c.utf8Size_pos
      have hpositive : exists n, String.utf8Len (c :: front) + more = n + 1 :=
        ⟨String.utf8Len (c :: front) + more - 1, by rw [String.utf8Len_cons]; omega⟩
      rcases hpositive with ⟨n, hn⟩
      have hless : n + 1 - c.utf8Size = String.utf8Len front + more := by
        rw [← hn, String.utf8Len_cons]
        omega
      rw [hn, List.cons_append, dropBytes, hless]
      exact ih

theorem dropBytes_append (front text : List Char) :
    dropBytes (String.utf8Len front) (front ++ text) = text := by
  have hdropped := dropBytes_add_append front text 0
  rw [Nat.add_zero, dropBytes.eq_1] at hdropped
  exact hdropped

theorem takeBytes_append (front text : List Char) :
    takeBytes (String.utf8Len front) (front ++ text) = front := by
  have hparts := takeBytes_append_dropBytes (String.utf8Len front) (front ++ text)
  rw [dropBytes_append] at hparts
  exact List.append_cancel_right hparts

theorem slice_append (front part back : List Char) :
    slice (String.utf8Len front) (String.utf8Len front + String.utf8Len part)
      (front ++ (part ++ back)) = part := by
  unfold slice
  rw [Nat.add_sub_cancel_left, dropBytes_append, takeBytes_append]

theorem slice_add_append (front text : List Char) (first last : Nat) :
    slice (String.utf8Len front + first) (String.utf8Len front + last) (front ++ text) =
      slice first last text := by
  unfold slice
  rw [dropBytes_add_append, Nat.add_sub_add_left]

theorem StandsBehind.slice_eq {text : List Char} {bytes : Nat} {t : Token}
    (h : StandsBehind text bytes t) :
    slice t.place.offset t.stopOffset text = t.lexeme.toList := by
  rcases h with ⟨front, gap, back, htext, _, hoffset, _⟩
  rw [htext, ← List.append_assoc, stopOffset, utf8ByteSize_eq, ← hoffset]
  exact slice_append (front ++ gap) t.lexeme.toList back

namespace Laid

def stopBefore (offset : Nat) (ts : List Token) : Nat → Nat
  | 0 => offset
  | i + 1 => (ts[i]?.map stopOffset).getD 0

theorem standsBehind {offset : Nat} {ts : List Token} {text : List Char}
    (h : Laid offset ts text) {front : List Char} (hfront : String.utf8Len front = offset)
    {i : Nat} {t : Token} (ht : ts[i]? = some t) :
    StandsBehind (front ++ text) (stopBefore offset ts i) t := by
  induction h generalizing front i with
  | @stop offset stop gap hgap hkind hlexeme hoffset =>
      cases i with
      | succ i => cases ht
      | zero =>
          injection ht with ht
          subst ht
          refine ⟨front, gap, [], ?_, hfront, ?_, ?_⟩
          · rw [hlexeme]
            simp
          · rw [String.utf8Len_append, hfront, hoffset]
          · rw [hlexeme]
            exact hgap
  | @token offset first ts gap text hgap hkind hlexeme hoffset hmore ih =>
      cases i with
      | zero =>
          injection ht with ht
          subst ht
          refine ⟨front, gap, text, rfl, hfront, ?_, hgap⟩
          rw [String.utf8Len_append, hfront, hoffset]
      | succ i =>
          have hbehind : String.utf8Len (front ++ (gap ++ first.lexeme.toList)) =
              first.stopOffset := by
            rw [String.utf8Len_append, String.utf8Len_append, hfront, stopOffset, hoffset,
              utf8ByteSize_eq]
            omega
          have hstands := ih hbehind ht
          rw [List.append_assoc, List.append_assoc] at hstands
          cases i with
          | zero => exact hstands
          | succ i => exact hstands

theorem of_lt {offset : Nat} {ts : List Token} {text : List Char} (h : Laid offset ts text)
    {i : Nat} {t : Token} (ht : ts[i]? = some t) (hi : i + 1 < ts.length) :
    t.kind ≠ .endOfText ∧ t.lexeme ≠ "" := by
  induction h generalizing i with
  | stop => exact absurd hi (by simp)
  | @token offset first ts gap text hgap hkind hlexeme hoffset hmore ih =>
      cases i with
      | zero =>
          injection ht with ht
          subst ht
          exact ⟨hkind, hlexeme⟩
      | succ i => exact ih ht (Nat.lt_of_succ_lt_succ hi)

theorem of_last {offset : Nat} {ts : List Token} {text : List Char} (h : Laid offset ts text)
    {i : Nat} {t : Token} (ht : ts[i]? = some t) (hi : i + 1 = ts.length) :
    t.kind = .endOfText ∧ t.lexeme = "" ∧ t.place.offset = offset + String.utf8Len text := by
  induction h generalizing i with
  | @stop offset stop gap hgap hkind hlexeme hoffset =>
      have hzero : i = 0 := Nat.succ.inj hi
      rw [hzero] at ht
      injection ht with ht
      subst ht
      exact ⟨hkind, hlexeme, hoffset⟩
  | @token offset first ts gap text hgap hkind hlexeme hoffset hmore ih =>
      cases i with
      | zero =>
          have hnone : ts = [] := List.eq_nil_of_length_eq_zero (Nat.succ.inj hi).symm
          rw [hnone] at hmore
          cases hmore
      | succ i =>
          rcases ih ht (Nat.succ.inj hi) with ⟨hend, hempty, hplace⟩
          refine ⟨hend, hempty, ?_⟩
          rw [hplace, stopOffset, hoffset, utf8ByteSize_eq, String.utf8Len_append,
            String.utf8Len_append]
          omega

end Laid

namespace TokenStream

def gapStart (stream : TokenStream) : Nat → Nat
  | 0 => 0
  | i + 1 => (stream.get i).stopOffset

theorem getElem?_toList {stream : TokenStream} {i : Nat} (h : i ≤ stream.size) :
    stream.toList[i]? = some (stream.get i) := by
  unfold toList get
  rcases Nat.lt_or_eq_of_le h with hlt | heq
  · have hlt : i < stream.body.size := hlt
    rw [List.getElem?_append_left (by simpa using hlt)]
    simp [hlt]
  · have heq : i = stream.body.size := heq
    rw [List.getElem?_append_right (by simp [heq])]
    simp [heq]

end TokenStream

theorem laid_tokensOf {text : String} {stream : TokenStream} (h : tokensOf text = .ok stream) :
    Laid 0 stream.toList text.toList := by
  unfold tokensOf Lexer.tokenize at h
  cases hrun : (Lexer.ofText text).run.1 with
  | error e =>
      simp only [hrun] at h
      cases h
  | ok pair =>
      simp only [hrun] at h
      cases h
      have hlaid := Lexer.run_laid (Lexer.ofText text) hrun
      show Laid 0 (pair.1.toArray.toList ++ [pair.2]) text.toList
      rw [List.toList_toArray]
      exact hlaid

theorem standsBehind_tokensOf {text : String} {stream : TokenStream}
    (h : tokensOf text = .ok stream) {i : Nat} (hi : i ≤ stream.size) :
    StandsBehind text.toList (stream.gapStart i) (stream.get i) := by
  have hstart : String.utf8Len [] = 0 := rfl
  have hstands := (laid_tokensOf h).standsBehind hstart (stream.getElem?_toList hi)
  cases i with
  | zero => exact hstands
  | succ i =>
      have hbefore : Laid.stopBefore 0 stream.toList (i + 1) = stream.gapStart (i + 1) := by
        show (stream.toList[i]?.map stopOffset).getD 0 = _
        rw [stream.getElem?_toList (Nat.le_of_succ_le hi)]
        rfl
      rw [hbefore] at hstands
      exact hstands

theorem stopOffset_le_offset {text : String} {stream : TokenStream}
    (h : tokensOf text = .ok stream) {i j : Nat} (hij : i < j) (hj : j ≤ stream.size) :
    (stream.get i).stopOffset ≤ (stream.get j).place.offset := by
  induction j with
  | zero => exact absurd hij (Nat.not_lt_zero i)
  | succ j ih =>
      have hbehind := (standsBehind_tokensOf h hj).le_offset
      rcases Nat.lt_or_eq_of_le (Nat.le_of_lt_succ hij) with hlt | heq
      · have hearlier := ih hlt (Nat.le_of_succ_le hj)
        have hwidth : (stream.get j).place.offset ≤ (stream.get j).stopOffset :=
          Nat.le_add_right _ _
        exact hearlier.trans (hwidth.trans hbehind)
      · rw [heq]
        exact hbehind

/-- The tokens of a stream and the gaps between them are all of a text. -/
structure Lossless (text : String) (stream : TokenStream) : Prop where
  /-- Every token but the last has characters and is not the end of the text. -/
  body : forall i, i < stream.size ->
    (stream.get i).kind ≠ .endOfText ∧ (stream.get i).lexeme ≠ ""
  /-- The end of the text has no characters and stands behind the last byte. -/
  stop : stream.stop.kind = .endOfText ∧ stream.stop.lexeme = "" ∧
    stream.stop.place.offset = text.utf8ByteSize
  /-- A token ends before all later ones begin. -/
  ordered : forall i j, i < j -> j ≤ stream.size ->
    (stream.get i).stopOffset ≤ (stream.get j).place.offset
  /-- Every token is the slice of the text at its offset. -/
  slices : forall i, i ≤ stream.size ->
    slice (stream.get i).place.offset (stream.get i).stopOffset text.toList =
      (stream.get i).lexeme.toList
  /-- Between a token and the token before it there is a gap. -/
  gaps : forall i, i ≤ stream.size ->
    StandsBehind text.toList (stream.gapStart i) (stream.get i)

/-- Lexing loses nothing of a text. -/
theorem tokensOf_lossless {text : String} {stream : TokenStream}
    (h : tokensOf text = .ok stream) : Lossless text stream := by
  have hlaid := laid_tokensOf h
  have hlength : stream.toList.length = stream.size + 1 := by
    simp [TokenStream.toList, TokenStream.size]
  constructor
  · intro i hi
    apply hlaid.of_lt (stream.getElem?_toList (Nat.le_of_lt hi))
    omega
  · have hlast := stream.getElem?_toList (Nat.le_refl _)
    rw [stream.get_of_size_le (Nat.le_refl _)] at hlast
    have hstop := hlaid.of_last hlast hlength.symm
    rw [Nat.zero_add, ← utf8ByteSize_eq] at hstop
    exact hstop
  · intro i j hij hj
    exact stopOffset_le_offset h hij hj
  · intro i hi
    exact (standsBehind_tokensOf h hi).slice_eq
  · intro i hi
    exact standsBehind_tokensOf h hi

/-- The tokens of a sum of a name and a string, with comments of both kinds. -/
def commentedSum : TokenStream :=
  { body := #[⟨.identifier, "a", ⟨1, 2, 1⟩, false⟩, ⟨.punctuator .plus, "+", ⟨2, 5, 14⟩, true⟩,
      ⟨.string "é", "'é'", ⟨2, 6, 15⟩, false⟩]
    stop := ⟨.endOfText, "", ⟨2, 15, 25⟩, false⟩ }

theorem tokensOf_commentedSum : tokensOf " a// one\r\n/**/+'é' /***/" = .ok commentedSum := by
  cbv

theorem tokensOf_lossless_commentedSum :
    tokensOf " a// one\r\n/**/+'é' /***/" = .ok commentedSum ∧
      Lossless " a// one\r\n/**/+'é' /***/" commentedSum :=
  ⟨tokensOf_commentedSum, tokensOf_lossless tokensOf_commentedSum⟩

end Token
end ScriptHints

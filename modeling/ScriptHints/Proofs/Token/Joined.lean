import ScriptHints.Proofs.Token.Passage

/-!
# Texts one behind the other

Behind a semicolon a lexer is where it is at the beginning of a text. The tokens of a text that
ends with a semicolon, and of another text behind it, are the tokens of both texts.
-/

namespace ScriptHints
namespace Token

open Text

/-!
## Semicolons
-/

theorem Punctuator.longest?_semicolon (text : List Char) :
    longest? (';' :: text) = some .semicolon := by
  have hall : forall mark, mark ∈ all -> mark.chars.head? = some ';' -> mark = .semicolon := by
    decide +kernel
  refine longest?_eq_some (List.prefix_append [';'] text) fun other hother => ?_
  cases hchars : other.chars with
  | nil => exact Nat.zero_le _
  | cons c cs =>
      rw [hchars] at hother
      have hc : c = ';' := (List.cons_prefix_cons.mp hother).1
      have hsame := hall other (mem_all other) (by rw [hchars, hc]; rfl)
      rw [← hchars, hsame]

theorem item_semicolon (afterOperand : Bool) (text : List Char) :
    item afterOperand ';' text = ⟨.token (.punctuator .semicolon), [';'], text⟩ := by
  have hmark : Punctuator.semicolon.chars = [';'] := rfl
  rw [item_of_mark hmark (fun hc => absurd hc (by decide)) rfl, punctuatorItem,
    Punctuator.longest?_semicolon]
  rfl

theorem chars_of_item {afterOperand : Bool} {c : Char} {cs rest : List Char} {mark : Punctuator}
    (h : item afterOperand c (cs ++ rest) = ⟨.token (.punctuator mark), c :: cs, rest⟩) :
    c :: cs = mark.chars := by
  have hscanned := item_scanned
    (show (item afterOperand c (cs ++ rest)).value = .token (.punctuator mark) by rw [h])
  rw [h] at hscanned
  generalize hreading : (⟨.token (.punctuator mark), c :: cs, rest⟩ : Reading Item) = r at hscanned
  cases hscanned with
  | word _ hkind _ => cases hkind
  | punctuator mark _ _ =>
      unfold punctuatorItem at hreading
      cases hlongest : Punctuator.longest? (c :: (cs ++ rest)) with
      | none =>
          rw [hlongest] at hreading
          cases congrArg Reading.value hreading
      | some found =>
          rw [hlongest] at hreading
          have hvalue : Item.token (.punctuator mark) = .token (.punctuator found) :=
            congrArg Reading.value hreading
          cases hvalue
          exact congrArg Reading.taken hreading

/-!
## Passages that go on
-/

namespace Lexer

variable {l m n : Lexer} {ts us : List Token}

/-- A passage to the end of the text goes on from where another one has got to. -/
theorem Passes.strip (h : l.Passes ts n) (hall : l.Passes us m) (hend : m.rest = []) :
    exists more, us = ts ++ more ∧ n.Passes more m := by
  induction h generalizing us with
  | refl l => exact ⟨us, rfl, hall⟩
  | trivia htext heq _ ih =>
      cases hall with
      | refl =>
          rw [htext] at hend
          cases hend
      | trivia htext' heq' hmore =>
          rw [htext] at htext'
          injection htext' with hc htext'
          subst hc
          rw [← htext', heq] at heq'
          rw [← heq'] at hmore
          exact ih hmore
      | token kind htext' heq' _ =>
          rw [htext] at htext'
          injection htext' with hc htext'
          subst hc
          rw [← htext', heq] at heq'
          cases heq'
  | token kind htext heq _ ih =>
      cases hall with
      | refl =>
          rw [htext] at hend
          cases hend
      | trivia htext' heq' _ =>
          rw [htext] at htext'
          injection htext' with hc htext'
          subst hc
          rw [← htext', heq] at heq'
          cases heq'
      | token kind' htext' heq' hmore =>
          rw [htext] at htext'
          injection htext' with hc htext'
          subst hc
          rw [← htext', heq] at heq'
          cases heq'
          rcases ih hmore with ⟨more, rfl, hpasses⟩
          exact ⟨more, rfl, hpasses⟩

theorem Passes.unconcat {t : Token} (h : l.Passes (ts ++ [t]) n) :
    exists m kind c cs rest, l.Passes ts m ∧ m.rest = c :: (cs ++ rest) ∧
      item m.afterOperand c (cs ++ rest) = ⟨.token kind, c :: cs, rest⟩ ∧
      t = m.tokenHere kind (c :: cs) ∧ (m.after ⟨.token kind, c :: cs, rest⟩).Passes [] n := by
  rcases h.split with ⟨k, hbefore, hlast⟩
  rcases hlast.uncons with ⟨m, kind, c, cs, rest, hskip, htext, heq, ht, hmore⟩
  have hpasses := hbefore.trans hskip
  rw [List.append_nil] at hpasses
  exact ⟨m, kind, c, cs, rest, hpasses, htext, heq, ht, hmore⟩

theorem Passes.rest_ne_nil {t : Token} (h : l.Passes (t :: ts) n) : l.rest ≠ [] := by
  cases h with
  | trivia htext _ _ =>
      rw [htext]
      exact nofun
  | token _ htext _ _ =>
      rw [htext]
      exact nofun

/-- Up to the end of its last token a passage does not depend on what comes behind it. -/
theorem Passes.exists_cut {t : Token} (h : l.Passes (ts ++ [t]) n) :
    exists (k : Lexer) (front : List Char), k.Passes [] n ∧ l.rest = front ++ k.rest ∧
      t.lexeme.toList <:+ front ∧
      t.stopOffset = l.place.offset + String.utf8Len front ∧
      forall rest, Begins isApart k.rest rest ->
        (l.before (front ++ rest)).Passes (ts ++ [t]) (k.before rest) := by
  rcases h.unconcat with ⟨m, kind, c, cs, rest, hbefore, htext, heq, ht, hskip⟩
  rcases hbefore.exists_front with ⟨front, hwhole, hoffset, hother⟩
  have hlexeme : t.lexeme.toList = c :: cs := by
    rw [ht]
    exact String.toList_ofList
  refine ⟨_, front ++ c :: cs, hskip, ?_, ?_, ?_, fun rest' hbegins => ?_⟩
  · rw [hwhole, htext, List.append_assoc]
    rfl
  · rw [hlexeme]
    exact List.suffix_append _ _
  · rw [Token.stopOffset, utf8ByteSize_eq, hlexeme, ht, String.utf8Len_append, ← Nat.add_assoc,
      ← hoffset]
    rfl
  · have hlast := (hother (c :: (cs ++ rest')) (begins_of_head?_eq _ (by rw [htext]; rfl))).trans
      (.token kind rfl (item_token_before heq hbegins) (.refl _))
    rw [List.append_assoc, List.cons_append]
    rw [show (m.before (c :: (cs ++ rest'))).tokenHere kind (c :: cs) = t from ht.symm] at hlast
    exact hlast

end Lexer

/-!
## Fronts of texts
-/

/-- A text up to the end of one of its tokens, with what comes behind it. -/
structure FrontAt (text : String) (stream : TokenStream) (p : Nat) (front rest : List Char) :
    Prop where
  text : text.toList = front ++ rest
  /-- The front ends with the token. -/
  lexeme : (stream.get p).lexeme.toList <:+ front
  more : p + 1 < stream.size -> rest ≠ []
  /-- Another text with this front has the same tokens up to here. -/
  tokens (text' : String) (rest' : List Char) (stream' : TokenStream) :
    text'.toList = front ++ rest' -> Begins isApart rest rest' -> tokensOf text' = .ok stream' ->
      p < stream'.size ∧ forall i, i ≤ p -> stream'.get i = stream.get i

theorem exists_frontAt {text : String} {stream : TokenStream} (h : tokensOf text = .ok stream)
    {p : Nat} (hp : p < stream.size) : exists front rest, FrontAt text stream p front rest := by
  rcases tokensOf_ok_iff.mp h with ⟨m, hpasses, _, _⟩
  rw [← List.take_append_drop (p + 1) stream.body.toList, stream.take_body_succ hp] at hpasses
  rcases hpasses.split with ⟨k, hfront, hmore⟩
  rcases hfront.exists_cut with ⟨n, front, hskip, hwhole, hlexeme, _, hother⟩
  refine ⟨front, n.rest, ?_⟩
  constructor
  · exact hwhole
  · exact hlexeme
  · intro hless
    have hbehind := hskip.trans hmore
    rw [List.nil_append, List.drop_eq_getElem_cons hless] at hbehind
    exact hbehind.rest_ne_nil
  · intro text' rest' stream' htext' hbegins h'
    rcases tokensOf_ok_iff.mp h' with ⟨m', hpasses', hend', _⟩
    have hsame : (Lexer.ofText text).before (front ++ rest') = Lexer.ofText text' := by
      unfold Lexer.before Lexer.ofText
      rw [htext']
    have hfront' := hother rest' hbegins
    rw [hsame] at hfront'
    rcases hfront'.strip hpasses' hend' with ⟨more, hbody', _⟩
    have hkept : stream'.body.toList = stream.body.toList.take (p + 1) ++ more := by
      rw [hbody', stream.take_body_succ hp]
    have hlength : p < stream.body.toList.length := hp
    have htaken : (stream.body.toList.take (p + 1)).length = p + 1 := by
      rw [List.length_take]
      exact Nat.min_eq_left hlength
    constructor
    · have hsize := congrArg List.length hkept
      rw [List.length_append, htaken] at hsize
      show p < stream'.body.toList.length
      omega
    · intro i hi
      rw [TokenStream.get, TokenStream.get, ← Array.getElem?_toList, ← Array.getElem?_toList, hkept,
        List.getElem?_append_left (by omega), List.getElem?_take_of_lt (by omega),
        List.getElem?_eq_getElem (show i < stream.body.toList.length by omega)]
      rfl

theorem Lexer.Passes.lexeme_eq {l m : Lexer} {ts : List Token} (h : l.Passes ts m) {t : Token}
    (ht : t ∈ ts) {mark : Punctuator} (hmark : t.kind = .punctuator mark) :
    t.lexeme.toList = mark.chars := by
  induction h with
  | refl => cases ht
  | trivia _ _ _ ih => exact ih ht
  | token kind _ heq _ ih =>
      rcases List.mem_cons.mp ht with rfl | hmem
      · cases hmark
        rw [← chars_of_item heq]
        exact String.toList_ofList
      · exact ih hmem

theorem lexeme_of_punctuator {text : String} {stream : TokenStream} (h : tokensOf text = .ok stream)
    {p : Nat} {mark : Punctuator} (hmark : (stream.get p).kind = .punctuator mark) :
    (stream.get p).lexeme.toList = mark.chars := by
  rcases tokensOf_ok_iff.mp h with ⟨m, hpasses, _, hstop⟩
  unfold TokenStream.get at hmark ⊢
  cases hget : stream.body[p]? with
  | none =>
      rw [hget, Option.getD_none, hstop] at hmark
      cases hmark
  | some t =>
      rw [hget] at hmark
      exact hpasses.lexeme_eq (Array.mem_toList_iff.mpr (Array.mem_of_getElem? hget)) hmark

/-!
## Joined texts
-/

namespace TokenStream

/-- The tokens of one stream and then those of another one, which stand so many bytes further on. -/
structure Joins (base : Nat) (stream stream' joined : TokenStream) : Prop where
  size : joined.size = stream.size + stream'.size
  front (p : Nat) : p < stream.size -> joined.get p = stream.get p
  behind (p : Nat) : (stream'.get p).Moved base (joined.get (stream.size + p))

theorem joins_of_moved {base : Nat} {stream stream' joined : TokenStream} {more : List Token}
    (hbody : joined.body.toList = stream.body.toList ++ more)
    (hmore : List.Forall₂ (Token.Moved base) stream'.body.toList more)
    (hstop : stream'.stop.Moved base joined.stop) : Joins base stream stream' joined := by
  have hlength := hmore.length_eq
  have hget (p : Nat) : joined.get p = (stream.body.toList ++ more)[p]?.getD joined.stop := by
    rw [get, ← Array.getElem?_toList, hbody]
  constructor
  · have hsize := congrArg List.length hbody
    rw [List.length_append, ← hlength] at hsize
    exact hsize
  · intro p hp
    have hp : p < stream.body.toList.length := hp
    rw [hget, List.getElem?_append_left hp, List.getElem?_eq_getElem hp, stream.getElem_body hp,
      Option.getD_some]
  · intro p
    have hsize : stream.size = stream.body.toList.length := rfl
    rw [hget, hsize, List.getElem?_append_right (Nat.le_add_right _ _),
      Nat.add_sub_cancel_left, get,
      ← Array.getElem?_toList]
    rcases Nat.lt_or_ge p more.length with hlt | hge
    · rw [List.getElem?_eq_getElem hlt, List.getElem?_eq_getElem (hlength ▸ hlt)]
      exact hmore.get _ hlt
    · rw [List.getElem?_eq_none hge, List.getElem?_eq_none (hlength ▸ hge)]
      exact hstop

end TokenStream

/-- Behind a text that ends with a semicolon another text has the tokens that it has alone. -/
theorem tokensOf_append {text text' : String} {stream joined : TokenStream} {last : Token}
    (h : tokensOf text = .ok stream) (hlast : stream.body.toList.getLast? = some last)
    (hmark : last.kind = .punctuator .semicolon) (hend : last.stopOffset = text.utf8ByteSize)
    (hjoined : tokensOf (text ++ text') = .ok joined) :
    exists stream', tokensOf text' = .ok stream' ∧
      TokenStream.Joins text.utf8ByteSize stream stream' joined := by
  rcases tokensOf_ok_iff.mp h with ⟨_, hpasses, _⟩
  rcases tokensOf_ok_iff.mp hjoined with ⟨m, hall, hrest, hstop⟩
  rcases List.getLast?_eq_some_iff.mp hlast with ⟨ts, hbody⟩
  rw [hbody] at hpasses
  rcases hpasses.unconcat with ⟨n, kind, c, cs, rest, hbefore, htext, heq, rfl, _⟩
  cases hmark
  rcases List.cons.inj (chars_of_item heq) with ⟨rfl, rfl⟩
  rcases hbefore.exists_front with ⟨front, hfront, hoffset, hother⟩
  have hfront : text.toList = front ++ n.rest := hfront
  have hplace : n.place.offset + 1 = text.utf8ByteSize := hend
  have hjoins : (Lexer.ofText text).before (front ++ ';' :: text'.toList) =
      Lexer.ofText (text ++ text') := by
    -- Nothing stands behind the last semicolon of the first text.
    have hsize := utf8ByteSize_eq text
    rw [hfront, htext, String.utf8Len_append, List.nil_append, String.utf8Len_cons] at hsize
    have hwidth : Char.utf8Size ';' = 1 := rfl
    have hstart : (Lexer.ofText text).place.offset = 0 := rfl
    have hempty : rest = [] := String.utf8Len_eq_zero.mp (by omega)
    unfold Lexer.before Lexer.ofText
    rw [String.toList_append, hfront, htext, hempty]
    simp
  have hitem (afterOperand : Bool) :
      item afterOperand ';' ([] ++ text'.toList) =
        ⟨.token (.punctuator .semicolon), [';'], text'.toList⟩ := item_semicolon _ _
  have hbehind := (hother (';' :: text'.toList) (begins_of_head?_eq _ (by rw [htext]; rfl))).trans
    (.token (.punctuator .semicolon) rfl (hitem _) (.refl _))
  rw [hjoins] at hbehind
  rcases hbehind.strip hall hrest with ⟨more, hmore, hgoes⟩
  have hmoved : Lexer.Moved text.utf8ByteSize (Lexer.ofText text')
      ((n.before (';' :: text'.toList)).after
        ⟨.token (.punctuator .semicolon), [';'], text'.toList⟩) := ⟨rfl, rfl, rfl, hplace⟩
  rcases hgoes.moved hmoved with ⟨ts', m', hpasses', hm, hsame⟩
  refine ⟨⟨ts'.toArray, m'.tokenHere .endOfText []⟩,
    tokensOf_ok_iff.mpr ⟨m', hpasses', hm.rest.symm.trans hrest, rfl⟩, ?_⟩
  refine TokenStream.joins_of_moved ?_ hsame ?_
  · rw [hbody]
    exact hmore
  · rw [hstop]
    exact hm.tokenHere .endOfText []

end Token
end ScriptHints

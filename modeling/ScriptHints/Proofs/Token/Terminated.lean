import ScriptHints.Proofs.Token.Joined
import ScriptHints.Proofs.Token.Respaced

/-!
# Semicolons behind tokens

A semicolon that is put right behind a token is a token of its own, and all others stay what they
are. Only a slash does not: behind an operand it divides, and behind a semicolon it begins a
regular expression.
-/

namespace ScriptHints
namespace Token

open Text

/-!
## Slashes
-/

theorem Punctuator.longest?_slash (text : List Char) :
    longest? ('/' :: text) = some .slash ∨ longest? ('/' :: text) = some .slashEqual := by
  have hall : forall mark, mark ∈ all -> mark.chars.head? = some '/' ->
      mark = .slash ∨ mark = .slashEqual := by
    decide +kernel
  cases hlongest : longest? ('/' :: text) with
  | none =>
      have hslash := List.find?_eq_none.mp hlongest .slash (mem_all _)
      exact absurd (List.isPrefixOf_iff_prefix.mpr (List.prefix_append ['/'] text)) hslash
  | some mark =>
      have hhead : mark.chars.head? = some '/' := by
        rcases longest?_isPrefix hlongest with ⟨more, hmore⟩
        have hsome := mark.chars_ne_nil
        cases hchars : mark.chars with
        | nil => exact absurd hchars hsome
        | cons c cs =>
            rw [hchars, List.cons_append] at hmore
            rw [(List.cons.inj hmore).1]
            rfl
      rcases hall mark (mem_all mark) hhead with rfl | rfl
      · exact .inl rfl
      · exact .inr rfl

theorem item_of_division {text : List Char} (hline : text.head? ≠ some '/')
    (hblock : text.head? ≠ some '*') :
    exists kind, (item true '/' text).value = .token kind ∧ kind.isSlash = true := by
  have hmark : Punctuator.slash.chars = ['/'] := rfl
  rw [item_of_mark hmark (fun _ => ⟨rfl, hline, hblock⟩) rfl, punctuatorItem]
  rcases Punctuator.longest?_slash text with hlongest | hlongest
  · rw [hlongest]
    exact ⟨_, rfl, rfl⟩
  · rw [hlongest]
    exact ⟨_, rfl, rfl⟩

/-- Everything but a division is the same behind an operand and elsewhere. -/
theorem item_anywhere {c : Char} {text : List Char}
    (h : forall kind, (item true c text).value = .token kind -> kind.isSlash = false) :
    item false c text = item true c text := by
  by_cases hc : c = '/'
  · subst hc
    by_cases hline : text.head? = some '/'
    · rw [eq_cons_drop_of_head? hline]
      rfl
    · by_cases hblock : text.head? = some '*'
      · rw [eq_cons_drop_of_head? hblock]
        rfl
      · rcases item_of_division hline hblock with ⟨kind, hvalue, hslash⟩
        exact absurd hslash (Bool.eq_false_iff.mp (h kind hvalue))
  · simp [item, hc]

/-!
## Passages that are resumed
-/

namespace Lexer

variable {l l' m : Lexer} {ts : List Token}

/-- The same text is left at both states. The second one may have forgotten that an operand stands
before it, if the next token is no slash. -/
structure Resumes (l l' : Lexer) (ts : List Token) : Prop where
  rest : l'.rest = l.rest
  newline : l'.newline = l.newline
  afterOperand : l'.afterOperand = l.afterOperand ∨
    l'.afterOperand = false ∧ forall t, ts.head? = some t -> t.kind.isSlash = false

theorem Resumes.item_eq (h : Resumes l l' ts) {c : Char} {text : List Char}
    (hnext : forall kind, (item l.afterOperand c text).value = .token kind ->
      exists t, ts.head? = some t ∧ t.kind = kind) :
    item l'.afterOperand c text = item l.afterOperand c text := by
  rcases h.afterOperand with hsame | ⟨hforgotten, hslash⟩
  · rw [hsame]
  · cases hafter : l.afterOperand with
    | false => rw [hforgotten]
    | true =>
        rw [hforgotten]
        refine item_anywhere fun kind hvalue => ?_
        rw [← hafter] at hvalue
        rcases hnext kind hvalue with ⟨t, ht, rfl⟩
        exact hslash t ht

theorem Passes.resumed (h : l.Passes ts m) (hl : Resumes l l' ts) :
    exists ts' m', l'.Passes ts' m' ∧ m'.rest = m.rest ∧ m'.newline = m.newline ∧
      ts'.map Unplaced.of = ts.map Unplaced.of := by
  induction h generalizing l' with
  | refl l => exact ⟨[], l', .refl l', hl.rest, hl.newline, rfl⟩
  | @trivia l m c cs rest ts htext heq _ ih =>
      have hitem : item l'.afterOperand c (cs ++ rest) = ⟨.trivia, c :: cs, rest⟩ := by
        rw [← heq]
        refine hl.item_eq fun kind hvalue => ?_
        rw [heq] at hvalue
        cases hvalue
      have hafter : Resumes (l.after ⟨.trivia, c :: cs, rest⟩) (l'.after ⟨.trivia, c :: cs, rest⟩)
          ts := by
        refine ⟨rfl, ?_, hl.afterOperand⟩
        show (l'.newline || _) = (l.newline || _)
        rw [hl.newline]
      rcases ih hafter with ⟨ts', m', hpasses, hm⟩
      exact ⟨ts', m', .trivia (hl.rest.trans htext) hitem hpasses, hm⟩
  | @token l m c cs rest ts kind htext heq _ ih =>
      have hitem : item l'.afterOperand c (cs ++ rest) = ⟨.token kind, c :: cs, rest⟩ := by
        rw [← heq]
        refine hl.item_eq fun kind' hvalue => ?_
        rw [heq] at hvalue
        cases hvalue
        exact ⟨_, rfl, rfl⟩
      have hafter : Resumes (l.after ⟨.token kind, c :: cs, rest⟩)
          (l'.after ⟨.token kind, c :: cs, rest⟩) ts := ⟨rfl, rfl, .inl rfl⟩
      rcases ih hafter with ⟨ts', m', hpasses, hrest, hnewline, hsame⟩
      refine ⟨_, m', .token kind (hl.rest.trans htext) hitem hpasses, hrest, hnewline, ?_⟩
      rw [List.map_cons, List.map_cons, hsame]
      congr 1
      unfold Unplaced.of tokenHere
      rw [hl.newline]

/-- A semicolon can be put behind a token, if the next one is no slash. -/
theorem Passes.terminated {k : Lexer} {us : List Token} {t : Token} (h : l.Passes (us ++ [t]) k)
    (hmore : k.Passes ts m) (hslash : forall t, ts.head? = some t -> t.kind.isSlash = false) :
    exists front rest mark ts' m', l.rest = front ++ rest ∧
      t.stopOffset = l.place.offset + String.utf8Len front ∧
      mark.kind = .punctuator .semicolon ∧
      (l.before (front ++ ';' :: rest)).Passes (us ++ t :: mark :: ts') m' ∧ m'.rest = m.rest ∧
      m'.newline = m.newline ∧ ts'.map Unplaced.of = ts.map Unplaced.of := by
  rcases h.unconcat with ⟨n, kind, c, cs, rest, hbefore, htext, heq, ht, hskip⟩
  rcases hbefore.exists_front with ⟨front, hwhole, hoffset, hother⟩
  have hbehind := hskip.trans hmore
  -- Up to the semicolon the text is read in the same way.
  have hlast :=
    (hother (c :: (cs ++ ';' :: rest)) (begins_of_head?_eq _ (by rw [htext]; rfl))).trans
    (.token kind rfl (item_token_before heq (begins_of_apart (by decide) rest rest)) (.refl _))
  rw [show (n.before (c :: (cs ++ ';' :: rest))).tokenHere kind (c :: cs) = t from ht.symm] at hlast
  have hmark := hlast.trans (.token (.punctuator .semicolon) rfl
    (show item _ ';' ([] ++ rest) = _ from item_semicolon _ rest) (.refl _))
  have hresumes : Resumes (n.after ⟨.token kind, c :: cs, rest⟩)
      (((n.before (c :: (cs ++ ';' :: rest))).after ⟨.token kind, c :: cs, ';' :: rest⟩).after
        ⟨.token (.punctuator .semicolon), [';'], rest⟩) ts := ⟨rfl, rfl, .inr ⟨rfl, hslash⟩⟩
  rcases hbehind.resumed hresumes with ⟨ts', m', hrest, hend, hnewline, hsame⟩
  have hall := hmark.trans hrest
  rw [List.append_assoc, List.append_assoc, List.singleton_append, List.singleton_append] at hall
  generalize hkind : Lexer.tokenHere _ (.punctuator .semicolon) [';'] = mark at hall
  refine ⟨front ++ c :: cs, rest, mark, ts', m', ?_, ?_, ?_, ?_, hend, hnewline, hsame⟩
  · rw [hwhole, htext, List.append_assoc, List.cons_append]
  · rw [ht, Token.stopOffset, utf8ByteSize_eq]
    show n.place.offset + String.utf8Len (String.ofList (c :: cs)).toList = _
    rw [String.toList_ofList, hoffset, String.utf8Len_append, Nat.add_assoc]
  · rw [← hkind]
    rfl
  · rw [List.append_assoc, List.cons_append]
    exact hall

end Lexer

/-!
## Texts with another semicolon
-/

def terminated (text : String) (offset : Nat) : String :=
  String.ofList (takeBytes offset text.toList ++ ';' :: dropBytes offset text.toList)

def TokenStream.Terminated (p : Nat) (stream stream' : TokenStream) : Prop :=
  exists mark, mark.kind = .punctuator .semicolon ∧
    stream.unplaced = stream'.unplaced.take (p + 1) ++ mark :: stream'.unplaced.drop (p + 1)

namespace TokenStream

variable {p : Nat} {stream stream' : TokenStream}

theorem of_get (stream : TokenStream) (i : Nat) :
    Unplaced.of (stream.get i) = stream.unplaced[i]?.getD (Unplaced.of stream.stop) := by
  rw [get_eq_toList, unplaced, List.getElem?_map, Option.getD_map]

theorem getLast?_unplaced (stream : TokenStream) :
    stream.unplaced.getLast? = some (Unplaced.of stream.stop) := by
  simp [unplaced, toList]

theorem length_unplaced (stream : TokenStream) : stream.unplaced.length = stream.size + 1 := by
  simp [unplaced, toList, size]

def terminate (p : Nat) (stream : TokenStream) : TokenStream where
  body := (stream.body.toList.take (p + 1) ++
    ⟨.punctuator .semicolon, ";", .start, false⟩ :: stream.body.toList.drop (p + 1)).toArray
  stop := stream.stop

theorem terminated_of_body {stream : TokenStream} (hp : p < stream.size) {mark stop : Token}
    {ts : List Token} (hmark : mark.kind = .punctuator .semicolon)
    (hsame : ts.map Unplaced.of = (stream.body.toList.drop (p + 1)).map Unplaced.of)
    (hstop : Unplaced.of stop = Unplaced.of stream.stop) :
    Terminated p ⟨(stream.body.toList.take (p + 1) ++ mark :: ts).toArray, stop⟩ stream := by
  refine ⟨.of mark, hmark, ?_⟩
  have hlength : p + 1 ≤ stream.body.toList.length := hp
  unfold unplaced toList
  rw [← List.map_take, ← List.map_drop, List.take_append_of_le_length hlength,
    List.drop_append_of_le_length hlength, List.map_append, List.map_append, List.map_append,
    List.append_assoc, List.map_cons, List.cons_append, hsame]
  exact congrArg (fun last => _ ++ (_ :: (_ ++ [last]))) hstop

theorem terminated_terminate (hp : p < stream.size) : Terminated p (terminate p stream) stream :=
  terminated_of_body hp rfl rfl rfl

variable (h : Terminated p stream stream') (hp : p < stream'.size)
include h hp

theorem Terminated.size_eq : stream.size = stream'.size + 1 := by
  rcases h with ⟨mark, _, hsame⟩
  have hlength := congrArg List.length hsame
  rw [List.length_append, List.length_cons, List.length_take, List.length_drop,
    length_unplaced, length_unplaced] at hlength
  omega

theorem Terminated.stop_eq : Unplaced.of stream.stop = Unplaced.of stream'.stop := by
  rcases h with ⟨mark, _, hsame⟩
  have hlast := getLast?_unplaced stream
  have hdrop : (stream'.unplaced.drop (p + 1)).getLast? = some (Unplaced.of stream'.stop) := by
    rw [List.getLast?_drop, getLast?_unplaced, length_unplaced, if_neg (by omega)]
  rw [hsame, List.getLast?_append, List.getLast?_cons, hdrop] at hlast
  exact (Option.some.inj hlast).symm

theorem Terminated.get_before {i : Nat} (hi : i ≤ p) :
    Unplaced.of (stream.get i) = Unplaced.of (stream'.get i) := by
  have hstop := h.stop_eq hp
  rcases h with ⟨mark, _, hsame⟩
  rw [of_get, of_get, hsame, hstop, List.getElem?_append_left, List.getElem?_take_of_lt (by omega)]
  rw [List.length_take, length_unplaced]
  omega

theorem Terminated.kind_mark : (stream.get (p + 1)).kind = .punctuator .semicolon := by
  rcases h with ⟨mark, hmark, hsame⟩
  have hlength : (stream'.unplaced.take (p + 1)).length = p + 1 := by
    rw [List.length_take, length_unplaced]
    omega
  have hget := of_get stream (p + 1)
  rw [hsame, List.getElem?_append_right (by omega), hlength, Nat.sub_self,
    List.getElem?_cons_zero] at hget
  exact (congrArg Unplaced.kind hget).trans hmark

theorem Terminated.get_behind {i : Nat} (hi : p < i) :
    Unplaced.of (stream.get (i + 1)) = Unplaced.of (stream'.get i) := by
  have hstop := h.stop_eq hp
  rcases h with ⟨mark, _, hsame⟩
  have hlength : (stream'.unplaced.take (p + 1)).length = p + 1 := by
    rw [List.length_take, length_unplaced]
    omega
  rw [of_get, of_get, hsame, hstop, List.getElem?_append_right (by omega), hlength,
    show i + 1 - (p + 1) = (i - (p + 1)) + 1 by omega, List.getElem?_cons_succ, List.getElem?_drop,
    show p + 1 + (i - (p + 1)) = i by omega]

end TokenStream

theorem tokensOf_terminated {text : String} {stream' : TokenStream}
    (h : tokensOf text = .ok stream')
    {p : Nat} (hp : p < stream'.size) (hslash : (stream'.get (p + 1)).kind.isSlash = false) :
    exists stream, tokensOf (terminated text (stream'.get p).stopOffset) = .ok stream ∧
      TokenStream.Terminated p stream stream' := by
  rcases tokensOf_ok_iff.mp h with ⟨m, hpasses, hend, hstop⟩
  rw [← List.take_append_drop (p + 1) stream'.body.toList, stream'.take_body_succ hp] at hpasses
  rcases hpasses.split with ⟨k, hfront, hmore⟩
  have hnext (t : Token) (hhead : (stream'.body.toList.drop (p + 1)).head? = some t) :
      t.kind.isSlash = false := by
    rw [List.head?_drop] at hhead
    rw [TokenStream.get, ← Array.getElem?_toList, hhead] at hslash
    exact hslash
  rcases hfront.terminated hmore hnext with
    ⟨front, rest, mark, ts, m', hchars, hoffset, hmark, hall, hend', hnewline, hsame⟩
  have hstart : (Lexer.ofText text).before (front ++ ';' :: rest) =
      Lexer.ofText (terminated text (stream'.get p).stopOffset) := by
    have hchars : text.toList = front ++ rest := hchars
    have hoffset : (stream'.get p).stopOffset = String.utf8Len front :=
      hoffset.trans (Nat.zero_add _)
    unfold Lexer.before Lexer.ofText terminated
    rw [hoffset, hchars, takeBytes_append, dropBytes_append, String.toList_ofList]
  rw [hstart, ← List.singleton_append, ← List.append_assoc, ← stream'.take_body_succ hp] at hall
  refine ⟨⟨(stream'.body.toList.take (p + 1) ++ mark :: ts).toArray, m'.tokenHere .endOfText []⟩,
    tokensOf_ok_iff.mpr ⟨m', hall, hend'.trans hend, rfl⟩,
    TokenStream.terminated_of_body hp hmark hsame ?_⟩
  rw [hstop]
  unfold Unplaced.of Lexer.tokenHere
  rw [hnewline]

end Token
end ScriptHints

import ScriptHints.Proofs.Token.Lossless

/-!
# Passages of a lexer

A run that succeeds is a passage to the end of the text. A passage can be cut behind every
token, it does not depend on what comes behind it, and it is the same in the middle of another
text, where only the places are others.
-/

namespace ScriptHints
namespace Token

open Text

namespace Lexer

/-- The lexer gets from one state to another one and makes these tokens on its way. -/
inductive Passes : Lexer → List Token → Lexer → Prop where
  | refl (l : Lexer) :
      Passes l [] l
  | trivia {l m : Lexer} {c : Char} {cs rest : List Char} {ts : List Token} :
      l.rest = c :: (cs ++ rest) ->
      item l.afterOperand c (cs ++ rest) = ⟨.trivia, c :: cs, rest⟩ ->
      Passes (l.after ⟨.trivia, c :: cs, rest⟩) ts m ->
      Passes l ts m
  | token {l m : Lexer} {c : Char} {cs rest : List Char} {ts : List Token} (kind : TokenKind) :
      l.rest = c :: (cs ++ rest) ->
      item l.afterOperand c (cs ++ rest) = ⟨.token kind, c :: cs, rest⟩ ->
      Passes (l.after ⟨.token kind, c :: cs, rest⟩) ts m ->
      Passes l (l.tokenHere kind (c :: cs) :: ts) m

theorem item_eq_cons {afterOperand : Bool} {c : Char} {text : List Char}
    (h : (item afterOperand c text).taken ≠ []) :
    exists cs rest, text = cs ++ rest ∧
      item afterOperand c text = ⟨(item afterOperand c text).value, c :: cs, rest⟩ := by
  have hsplits := splits_item afterOperand c text
  generalize item afterOperand c text = r at h hsplits ⊢
  rcases r with ⟨value, taken, rest⟩
  cases taken with
  | nil => exact absurd rfl h
  | cons d cs =>
      injection hsplits with hd htext
      rw [hd]
      exact ⟨cs, rest, htext.symm, rfl⟩

variable {l m n : Lexer} {ts us : List Token}

/-!
## Runs and passages
-/

theorem run_of_nil (h : l.rest = []) :
    l.run = (.ok ([], l.tokenHere .endOfText []), { l with newline := false }) := by
  rw [run.eq_def]
  split
  next => rfl
  next hrest =>
    rw [h] at hrest
    cases hrest

theorem run_eq_of_fault {c : Char} {text : List Char} {fault : LexicalFault}
    (hrest : l.rest = c :: text)
    (hvalue : (item l.afterOperand c text).value = .fault fault) :
    l.run = (.error { fault := fault, place := l.place },
      l.after (item l.afterOperand c text)) := by
  conv => lhs; rw [run.eq_def]
  split
  next hnil =>
    rw [hrest] at hnil
    cases hnil
  next c' text' hcons =>
    rw [hrest] at hcons
    cases hcons
    dsimp only
    split
    next fault' hfault =>
      rw [hvalue] at hfault
      cases hfault
      rfl
    next htrivia =>
      rw [hvalue] at htrivia
      cases htrivia
    next kind htoken =>
      rw [hvalue] at htoken
      cases htoken

theorem run_of_fault {c : Char} {text : List Char} {fault : LexicalFault}
    (hrest : l.rest = c :: text) (hvalue : (item l.afterOperand c text).value = .fault fault) :
    l.run.1 = .error { fault := fault, place := l.place } :=
  congrArg Prod.fst (run_eq_of_fault hrest hvalue)

theorem run_of_trivia {c : Char} {text : List Char} (hrest : l.rest = c :: text)
    (hvalue : (item l.afterOperand c text).value = .trivia) :
    l.run = (l.after (item l.afterOperand c text)).run := by
  conv => lhs; rw [run.eq_def]
  split
  next hnil =>
    rw [hrest] at hnil
    cases hnil
  next c' text' hcons =>
    rw [hrest] at hcons
    cases hcons
    dsimp only
    split
    next fault hfault =>
      rw [hvalue] at hfault
      cases hfault
    next => rfl
    next kind htoken =>
      rw [hvalue] at htoken
      cases htoken

theorem run_of_token {c : Char} {text : List Char} {kind : TokenKind} (hrest : l.rest = c :: text)
    (hvalue : (item l.afterOperand c text).value = .token kind) :
    l.run.1 = (l.after (item l.afterOperand c text)).run.1.map fun (body, stop) =>
      (l.tokenHere kind (item l.afterOperand c text).taken :: body, stop) := by
  conv => lhs; rw [run.eq_def]
  split
  next hnil =>
    rw [hrest] at hnil
    cases hnil
  next c' text' hcons =>
    rw [hrest] at hcons
    cases hcons
    dsimp only
    split
    next fault hfault =>
      rw [hvalue] at hfault
      cases hfault
    next htrivia =>
      rw [hvalue] at htrivia
      cases htrivia
    next kind' htoken =>
      rw [hvalue] at htoken
      cases htoken
      rfl

/-- What a run comes to, and the state in which it leaves the lexer. -/
inductive Stops (l : Lexer) : Except LexicalError (List Token × Token) → Lexer → Prop where
  | behind {m : Lexer} {ts : List Token} :
      l.Passes ts m -> m.rest = [] ->
      Stops l (.ok (ts, m.tokenHere .endOfText [])) { m with newline := false }
  | fault {m : Lexer} {ts : List Token} {c : Char} {text : List Char} {fault : LexicalFault} :
      l.Passes ts m -> m.rest = c :: text ->
      (item m.afterOperand c text).value = .fault fault ->
      Stops l (.error { fault := fault, place := m.place })
        (m.after (item m.afterOperand c text))

theorem Stops.trivia {c : Char} {cs rest : List Char} (htext : l.rest = c :: (cs ++ rest))
    (heq : item l.afterOperand c (cs ++ rest) = ⟨.trivia, c :: cs, rest⟩)
    (h : (l.after ⟨.trivia, c :: cs, rest⟩).Stops result last) : l.Stops result last := by
  cases h with
  | behind hpasses hend => exact .behind (.trivia htext heq hpasses) hend
  | fault hpasses hrest hvalue => exact .fault (.trivia htext heq hpasses) hrest hvalue

theorem Stops.token {c : Char} {cs rest : List Char} (kind : TokenKind)
    (htext : l.rest = c :: (cs ++ rest))
    (heq : item l.afterOperand c (cs ++ rest) = ⟨.token kind, c :: cs, rest⟩)
    (h : (l.after ⟨.token kind, c :: cs, rest⟩).Stops result last) :
    l.Stops (result.map fun (body, stop) => (l.tokenHere kind (c :: cs) :: body, stop)) last := by
  cases h with
  | behind hpasses hend => exact .behind (.token kind htext heq hpasses) hend
  | fault hpasses hrest hvalue => exact .fault (.token kind htext heq hpasses) hrest hvalue

theorem run_stops (l : Lexer) : l.Stops l.run.1 l.run.2 := by
  fun_induction Lexer.run l with
  | case1 l hrest => exact .behind (.refl l) hrest
  | case2 l c text hrest found fault hvalue => exact .fault (.refl l) hrest hvalue
  | case3 l c text hrest found hvalue =>
      rename_i ih
      have hsome := taken_item_ne_nil l.afterOperand c text (by
        rw [show (item l.afterOperand c text).value = .trivia from hvalue]
        rintro ⟨⟩)
      rcases item_eq_cons hsome with ⟨cs, rest, rfl, heq⟩
      rw [show (item l.afterOperand c (cs ++ rest)).value = .trivia from hvalue] at heq
      rw [show found = ⟨.trivia, c :: cs, rest⟩ from heq] at ih ⊢
      exact ih.trivia hrest heq
  | case4 l c text hrest found kind hvalue result last hrun =>
      rename_i ih
      rcases item_eq_cons (taken_ne_nil_of_token hvalue) with ⟨cs, rest, rfl, heq⟩
      rw [show (item l.afterOperand c (cs ++ rest)).value = .token kind from hvalue] at heq
      have hfound : found = ⟨.token kind, c :: cs, rest⟩ := heq
      rw [hrun, hfound] at ih
      rw [hfound]
      exact ih.token kind hrest heq

theorem run_ok_iff {body : List Token} {stop : Token} :
    l.run.1 = .ok (body, stop) ↔
      exists m, l.Passes body m ∧ m.rest = [] ∧ stop = m.tokenHere .endOfText [] := by
  constructor
  · intro h
    have hstops := run_stops l
    rw [h] at hstops
    generalize l.run.2 = last at hstops
    cases hstops with
    | behind hpasses hend => exact ⟨_, hpasses, hend, rfl⟩
  · rintro ⟨m, hpasses, hrest, rfl⟩
    induction hpasses with
    | refl l => rw [run_of_nil hrest]
    | @trivia l m c cs rest ts htext heq _ ih =>
        rw [run_of_trivia htext (by rw [heq]), heq]
        exact ih hrest
    | @token l m c cs rest ts kind htext heq _ ih =>
        have hvalue : (item l.afterOperand c (cs ++ rest)).value = .token kind := by rw [heq]
        rw [run_of_token htext hvalue, heq, ih hrest]
        rfl

/-!
## Passages one behind the other
-/

theorem Passes.trans (h : l.Passes ts m) (h' : m.Passes us n) : l.Passes (ts ++ us) n := by
  induction h with
  | refl l => exact h'
  | trivia htext heq _ ih => exact .trivia htext heq (ih h')
  | token kind htext heq _ ih => exact .token kind htext heq (ih h')

theorem Passes.uncons {t : Token} (h : l.Passes (t :: ts) n) :
    exists m kind c cs rest, l.Passes [] m ∧ m.rest = c :: (cs ++ rest) ∧
      item m.afterOperand c (cs ++ rest) = ⟨.token kind, c :: cs, rest⟩ ∧
      t = m.tokenHere kind (c :: cs) ∧ (m.after ⟨.token kind, c :: cs, rest⟩).Passes ts n := by
  generalize hall : t :: ts = all at h
  induction h with
  | refl l => cases hall
  | trivia htext heq _ ih =>
      rcases ih hall with ⟨m, kind, c, cs, rest, hskip, hrest⟩
      exact ⟨m, kind, c, cs, rest, .trivia htext heq hskip, hrest⟩
  | @token l n c cs rest ts kind htext heq hmore _ =>
      cases hall
      exact ⟨l, kind, c, cs, rest, .refl l, htext, heq, rfl, hmore⟩

theorem Passes.split (h : l.Passes (ts ++ us) n) :
    exists m, l.Passes ts m ∧ m.Passes us n := by
  induction ts generalizing l with
  | nil => exact ⟨l, .refl l, h⟩
  | cons t ts ih =>
      rcases h.uncons with ⟨k, kind, c, cs, rest, hskip, htext, heq, rfl, hmore⟩
      rcases ih hmore with ⟨m, hbefore, hbehind⟩
      exact ⟨m, hskip.trans (.token kind htext heq hbefore), hbehind⟩

/-!
## Other texts behind a passage
-/

def before (l : Lexer) (rest : List Char) : Lexer :=
  { l with rest := rest }

/-- What a passage takes does not depend on what comes behind it, if that begins alike. -/
theorem Passes.exists_front (h : l.Passes ts m) :
    exists front, l.rest = front ++ m.rest ∧
      m.place.offset = l.place.offset + String.utf8Len front ∧
      forall rest, Begins (fun _ => false) m.rest rest ->
        (l.before (front ++ rest)).Passes ts (m.before rest) := by
  induction h with
  | refl l => exact ⟨[], rfl, rfl, fun rest _ => .refl _⟩
  | @trivia l m c cs rest ts htext heq _ ih =>
      rcases ih with ⟨front, hfront, hoffset, hpasses⟩
      have hfront : rest = front ++ m.rest := hfront
      refine ⟨c :: cs ++ front, ?_, ?_, fun rest' hbegins => ?_⟩
      · rw [htext, hfront, ← List.append_assoc]
        rfl
      · rw [hoffset, String.utf8Len_append, ← Nat.add_assoc]
        exact congrArg (· + _) (offset_after l.place (c :: cs))
      · have hnext := hbegins.append front
        rw [← hfront] at hnext
        have hitem := item_trivia_before heq hnext
        exact .trivia (l := l.before (c :: cs ++ front ++ rest')) (by simp [before]) hitem
          (hpasses rest' hbegins)
  | @token l m c cs rest ts kind htext heq _ ih =>
      rcases ih with ⟨front, hfront, hoffset, hpasses⟩
      have hfront : rest = front ++ m.rest := hfront
      refine ⟨c :: cs ++ front, ?_, ?_, fun rest' hbegins => ?_⟩
      · rw [htext, hfront, ← List.append_assoc]
        rfl
      · rw [hoffset, String.utf8Len_append, ← Nat.add_assoc]
        exact congrArg (· + _) (offset_after l.place (c :: cs))
      · have hnext := hbegins.append front
        rw [← hfront] at hnext
        have hitem := item_token_before heq (hnext.mono nofun)
        exact .token (l := l.before (c :: cs ++ front ++ rest')) kind (by simp [before]) hitem
          (hpasses rest' hbegins)

end Lexer
end Token

/-!
## The same passage elsewhere
-/

open Text

structure Token.Alike (R : Place → Place → Prop) (t t' : Token) : Prop where
  kind : t'.kind = t.kind
  lexeme : t'.lexeme = t.lexeme
  newlineBefore : t'.newlineBefore = t.newlineBefore
  place : R t.place t'.place

structure Token.Moved (base : Nat) (t t' : Token) : Prop where
  kind : t'.kind = t.kind
  lexeme : t'.lexeme = t.lexeme
  newlineBefore : t'.newlineBefore = t.newlineBefore
  offset : t'.place.offset = base + t.place.offset

namespace Token
namespace Lexer

structure Alike (R : Place → Place → Prop) (l l' : Lexer) : Prop where
  rest : l'.rest = l.rest
  newline : l'.newline = l.newline
  afterOperand : l'.afterOperand = l.afterOperand
  place : R l.place l'.place

section

variable {R : Place → Place → Prop}
  (hR : forall p p' text, R p p' -> R (p.after text) (p'.after text)) {l l' m' : Lexer}
  {ts' : List Token}

include hR in
theorem Alike.after (h : Alike R l l') (r : Reading Item) : Alike R (l.after r) (l'.after r) where
  rest := rfl
  newline := by
    unfold Lexer.after
    rw [h.newline]
  afterOperand := by
    unfold Lexer.after
    rw [h.afterOperand]
  place := hR _ _ r.taken h.place

theorem Alike.tokenHere (h : Alike R l l') (kind : TokenKind) (lexeme : List Char) :
    (l.tokenHere kind lexeme).Alike R (l'.tokenHere kind lexeme) :=
  ⟨rfl, rfl, h.newline, h.place⟩

include hR in
theorem Passes.alike (h : l'.Passes ts' m') (hl : Alike R l l') :
    exists ts m, l.Passes ts m ∧ Alike R m m' ∧ List.Forall₂ (Token.Alike R) ts ts' := by
  induction h generalizing l with
  | refl l' => exact ⟨[], l, .refl l, hl, .nil⟩
  | trivia htext heq _ ih =>
      rw [hl.rest] at htext
      rw [hl.afterOperand] at heq
      rcases ih (hl.after hR _) with ⟨ts, m, hpasses, hm, hsame⟩
      exact ⟨ts, m, .trivia htext heq hpasses, hm, hsame⟩
  | token kind htext heq _ ih =>
      rw [hl.rest] at htext
      rw [hl.afterOperand] at heq
      rcases ih (hl.after hR _) with ⟨ts, m, hpasses, hm, hsame⟩
      exact ⟨_, m, .token kind htext heq hpasses, hm, .cons (hl.tokenHere kind _) hsame⟩

end

structure Moved (base : Nat) (l l' : Lexer) : Prop where
  rest : l'.rest = l.rest
  newline : l'.newline = l.newline
  afterOperand : l'.afterOperand = l.afterOperand
  offset : l'.place.offset = base + l.place.offset

variable {base : Nat} {l l' m' : Lexer} {ts' : List Token}

theorem Moved.tokenHere (h : Moved base l l') (kind : TokenKind) (lexeme : List Char) :
    (l.tokenHere kind lexeme).Moved base (l'.tokenHere kind lexeme) :=
  ⟨rfl, rfl, h.newline, h.offset⟩

theorem Passes.moved (h : l'.Passes ts' m') (hl : Moved base l l') :
    exists ts m, l.Passes ts m ∧ Moved base m m' ∧ List.Forall₂ (Token.Moved base) ts ts' := by
  have hbytes (p p' : Place) (text : List Char) (hp : p'.offset = base + p.offset) :
      (p'.after text).offset = base + (p.after text).offset := by
    rw [offset_after, offset_after, hp, Nat.add_assoc]
  rcases h.alike hbytes ⟨hl.rest, hl.newline, hl.afterOperand, hl.offset⟩ with
    ⟨ts, m, hpasses, hm, hsame⟩
  refine ⟨ts, m, hpasses, ⟨hm.rest, hm.newline, hm.afterOperand, hm.place⟩, ?_⟩
  exact hsame.imp fun t t' h => ⟨h.kind, h.lexeme, h.newlineBefore, h.place⟩

end Lexer

theorem tokensOf_ok_iff {text : String} {stream : TokenStream} :
    tokensOf text = .ok stream ↔
      exists m, (Lexer.ofText text).Passes stream.body.toList m ∧ m.rest = [] ∧
        stream.stop = m.tokenHere .endOfText [] := by
  rw [← Lexer.run_ok_iff]
  unfold tokensOf Lexer.tokenize
  cases hrun : (Lexer.ofText text).run.1 with
  | error e => simp [hrun, Except.map]
  | ok pair =>
      rcases pair with ⟨body, stop⟩
      simp only [hrun, Except.map, Except.ok.injEq, Prod.mk.injEq]
      constructor
      · rintro rfl
        exact ⟨by simp, rfl⟩
      · rintro ⟨hbody, hstop⟩
        rcases stream with ⟨array, stop'⟩
        simp at hbody hstop
        simp [hbody, hstop]

end Token
end ScriptHints

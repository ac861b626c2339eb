import ScriptHints.Proofs.Token.Positions
import ScriptHints.Proofs.Token.Terminated

/-!
# Slices of texts

The text from one token up to the end of a later one has these tokens and no others, if it does
not begin with a slash, which divides behind an operand only. Their places are counted from the
beginning of the slice.
-/

namespace ScriptHints

namespace Text
namespace Place

def plus (base p : Place) : Place where
  line := base.line + (p.line - 1)
  column := if p.line = 1 then base.column + (p.column - 1) else p.column
  offset := base.offset + p.offset

def Counted (p : Place) : Prop :=
  p.line ≠ 0 ∧ p.column ≠ 0

theorem plus_start {base : Place} : base.plus start = base := by
  simp [plus, start]

theorem Counted.after {p : Place} (h : p.Counted) (text : List Char) : (p.after text).Counted := by
  rw [after_eq]
  constructor
  · have hline := h.1
    show p.line + lineEnds text ≠ 0
    omega
  · have hcolumn := h.2
    show (if text.any isLineTerminator then (lastLine text).length + 1
      else p.column + text.length) ≠ 0
    split
    next => exact Nat.succ_ne_zero _
    next => omega

theorem plus_after {p : Place} (h : p.Counted) (base : Place) (text : List Char) :
    (base.plus p).after text = base.plus (p.after text) := by
  rcases h with ⟨hline, hcolumn⟩
  have hends := lineEnds_eq_zero_iff text
  rw [after_eq, after_eq p]
  unfold plus
  simp only [mk.injEq]
  refine ⟨by omega, ?_, by omega⟩
  cases hany : text.any isLineTerminator with
  | true =>
      have hmore : lineEnds text ≠ 0 := by
        intro hzero
        rw [hends.mp hzero] at hany
        cases hany
      rw [if_pos rfl, if_pos rfl, if_neg (by omega)]
  | false =>
      have hfalse : ¬ (false = true) := nofun
      rw [hends.mpr hany, if_neg hfalse, if_neg hfalse]
      simp only [Nat.add_zero]
      split <;> omega

end Place
end Text

namespace Token

open Text

/-!
## Passages that begin anew
-/

/-- What is no division is read in the same way at the beginning of a text. -/
theorem item_resumed {afterOperand afterOperand' : Bool}
    (h : afterOperand' = afterOperand ∨ afterOperand' = false) {c : Char} {text : List Char}
    (hslash : forall kind, (item afterOperand c text).value = .token kind -> kind.isSlash = false) :
    item afterOperand' c text = item afterOperand c text := by
  rcases h with rfl | rfl
  · rfl
  · cases afterOperand with
    | false => rfl
    | true => exact item_anywhere hslash

namespace Lexer

variable {R : Place → Place → Prop}
  (hR : forall p p' text, R p p' -> R (p.after text) (p'.after text)) {l l' m' : Lexer}
  {t' : Token} {ts' : List Token}

include hR in
/-- A passage does not depend on what stands before it, up to the first token. -/
theorem Passes.begun (h : l'.Passes (t' :: ts') m') (hslash : t'.kind.isSlash = false)
    (hrest : l.rest = l'.rest) (hafter : l.afterOperand = l'.afterOperand ∨ l.afterOperand = false)
    (hplace : R l.place l'.place) :
    exists t ts m, l.Passes (t :: ts) m ∧ m.rest = m'.rest ∧ t'.kind = t.kind ∧
      t'.lexeme = t.lexeme ∧ R t.place t'.place ∧ List.Forall₂ (Token.Alike R) ts ts' := by
  generalize hall : t' :: ts' = all at h
  induction h generalizing l with
  | refl => cases hall
  | @trivia l' m' c cs rest all htext heq _ ih =>
      have hitem : item l.afterOperand c (cs ++ rest) = ⟨.trivia, c :: cs, rest⟩ := by
        rw [← heq]
        refine item_resumed hafter fun kind hvalue => ?_
        rw [heq] at hvalue
        cases hvalue
      have hbehind : (l.after ⟨.trivia, c :: cs, rest⟩).rest =
          (l'.after ⟨.trivia, c :: cs, rest⟩).rest := rfl
      rcases ih hbehind hafter (hR _ _ _ hplace) hall with ⟨t, ts, m, hpasses, hm⟩
      exact ⟨t, ts, m, .trivia (hrest.trans htext) hitem hpasses, hm⟩
  | @token l' m' c cs rest all kind htext heq hmore _ =>
      cases hall
      have hitem : item l.afterOperand c (cs ++ rest) = ⟨.token kind, c :: cs, rest⟩ := by
        rw [← heq]
        refine item_resumed hafter fun kind' hvalue => ?_
        rw [heq] at hvalue
        cases hvalue
        exact hslash
      have hbehind : (l.after ⟨.token kind, c :: cs, rest⟩).Alike R
          (l'.after ⟨.token kind, c :: cs, rest⟩) := ⟨rfl, rfl, rfl, hR _ _ _ hplace⟩
      rcases hmore.alike hR hbehind with ⟨ts, m, hpasses, hm, hsame⟩
      exact ⟨_, ts, m, .token kind (hrest.trans htext) hitem hpasses, hm.rest.symm, rfl,
        rfl, hplace,
        hsame⟩

end Lexer

/-!
## Slices
-/

/-- The tokens from `first` up to, but without, `stop`, at places that are counted from the first
one. Only the part does not tell whether a line ended before it. -/
structure TokenStream.Sliced (first stop : Nat) (part whole : TokenStream) : Prop where
  size : first + part.size = stop
  kind (p : Nat) : p < part.size -> (whole.get (first + p)).kind = (part.get p).kind
  lexeme (p : Nat) : p < part.size -> (whole.get (first + p)).lexeme = (part.get p).lexeme
  newlineBefore (p : Nat) : 0 < p -> p < part.size ->
    (whole.get (first + p)).newlineBefore = (part.get p).newlineBefore
  place (p : Nat) : p < part.size ->
    (whole.get (first + p)).place = (whole.get first).place.plus (part.get p).place
  counted (p : Nat) : p < part.size -> (part.get p).place.Counted

theorem TokenStream.Sliced.of_tokens {first stop : Nat} {ts : List Token} {last : Token}
    {whole : TokenStream} (hsize : first + ts.length = stop)
    (h : forall p (hp : p < ts.length), (whole.get (first + p)).kind = ts[p].kind ∧
      (whole.get (first + p)).lexeme = ts[p].lexeme ∧
      (0 < p -> (whole.get (first + p)).newlineBefore = ts[p].newlineBefore) ∧
      (whole.get (first + p)).place = (whole.get first).place.plus ts[p].place ∧
      ts[p].place.Counted) : Sliced first stop ⟨ts.toArray, last⟩ whole := by
  have hget (p : Nat) (hp : p < ts.length) : get ⟨ts.toArray, last⟩ p = ts[p] := by
    simp [get, hp]
  exact
    { size := hsize
      kind := fun p hp => by rw [hget p hp]; exact (h p hp).1
      lexeme := fun p hp => by rw [hget p hp]; exact (h p hp).2.1
      newlineBefore := fun p hpos hp => by rw [hget p hp]; exact (h p hp).2.2.1 hpos
      place := fun p hp => by rw [hget p hp]; exact (h p hp).2.2.2.1
      counted := fun p hp => by rw [hget p hp]; exact (h p hp).2.2.2.2 }

def TokenStream.between (stream : TokenStream) (first stop : Nat) : List Token :=
  (stream.body.toList.drop first).take (stop - first)

theorem TokenStream.body_eq_between (stream : TokenStream) {first stop : Nat} (h : first ≤ stop) :
    stream.body.toList = stream.body.toList.take first ++
      (stream.between first stop ++ stream.body.toList.drop stop) := by
  unfold between
  conv => lhs; rw [← List.take_append_drop first stream.body.toList]
  conv => lhs; rhs; rw [← List.take_append_drop (stop - first) (stream.body.toList.drop first)]
  rw [List.drop_drop, Nat.add_sub_cancel' h]

section

variable {stream : TokenStream} {first stop : Nat} (hlt : first < stop) (hstop : stop ≤ stream.size)
include hlt hstop

theorem TokenStream.length_between : (stream.between first stop).length = stop - first := by
  have hlength : stream.size = stream.body.toList.length := rfl
  unfold between
  rw [List.length_take, List.length_drop]
  omega

theorem TokenStream.getElem?_between {p : Nat} (hp : p < stop - first) :
    (stream.between first stop)[p]? = some (stream.get (first + p)) := by
  have hlength : first + p < stream.body.toList.length := Nat.lt_of_lt_of_le (by omega) hstop
  unfold between
  rw [List.getElem?_take_of_lt hp, List.getElem?_drop, List.getElem?_eq_getElem hlength,
    stream.getElem_body]

theorem TokenStream.between_eq_cons :
    stream.between first stop = stream.get first :: (stream.between first stop).tail := by
  have hhead : (stream.between first stop)[0]? = some (stream.get first) :=
    getElem?_between hlt hstop (Nat.sub_pos_of_lt hlt)
  cases heq : stream.between first stop with
  | nil =>
      rw [heq] at hhead
      cases hhead
  | cons t ts =>
      rw [heq] at hhead
      cases hhead
      rfl

theorem TokenStream.between_eq_concat :
    stream.between first stop =
      (stream.between first stop).dropLast ++ [stream.get (stop - 1)] := by
  have hlast : (stream.between first stop).getLast? = some (stream.get (stop - 1)) := by
    rw [List.getLast?_eq_getElem?, length_between hlt hstop, getElem?_between hlt hstop (by omega)]
    congr 2
    omega
  rw [List.getLast?_eq_some_iff] at hlast
  rcases hlast with ⟨ts, hts⟩
  rw [hts, List.dropLast_concat]

end

theorem tokensOf_sliced {text : String} {stream : TokenStream} (h : tokensOf text = .ok stream)
    {first stop : Nat} (hlt : first < stop) (hstop : stop ≤ stream.size)
    (hslash : (stream.get first).kind.isSlash = false) :
    exists part,
      tokensOf (textBetween text.toList (stream.get first) (stream.get (stop - 1))) = .ok part ∧
      TokenStream.Sliced first stop part stream := by
  have hcons := TokenStream.between_eq_cons hlt hstop
  have hconcat := TokenStream.between_eq_concat hlt hstop
  have hlength := TokenStream.length_between hlt hstop
  rcases tokensOf_ok_iff.mp h with ⟨m, hpasses, _, _⟩
  rw [TokenStream.body_eq_between stream (Nat.le_of_lt hlt)] at hpasses
  rcases hpasses.split with ⟨k₀, hbefore, hpasses⟩
  rcases hpasses.split with ⟨k₁, hmiddle, _⟩
  -- The slice begins where the lexer stands at the first token.
  rw [hcons] at hmiddle
  rcases hmiddle.uncons with ⟨n, kind, c, cs, rest, hskip, htext, heq, hfirst, hmore⟩
  have hinside : n.Passes (stream.between first stop) k₁ := by
    rw [hcons, hfirst]
    exact .token kind htext heq hmore
  rcases (hbefore.trans hskip).exists_front with ⟨pre, hpre, hoffset, _⟩
  have hpre : text.toList = pre ++ n.rest := hpre
  have hoffset : n.place.offset = String.utf8Len pre := hoffset.trans (Nat.zero_add _)
  rw [hconcat] at hinside
  rcases hinside.exists_cut with ⟨k, part, _, hpart, _, hend, hcut⟩
  have hslice : textBetween text.toList (stream.get first) (stream.get (stop - 1)) =
    String.ofList part := by
    have hstart : (stream.get first).place = n.place := congrArg Token.place hfirst
    unfold textBetween
    rw [hstart, hend, hoffset, hpre, hpart, slice_append]
  have hinner := hcut [] (begins_nil _ _)
  rw [← hconcat, hcons, List.append_nil] at hinner
  have hR (p p' : Place) (text : List Char) (hp : p.Counted ∧ p' = n.place.plus p) :
      (p.after text).Counted ∧ p'.after text = n.place.plus (p.after text) := by
    refine ⟨hp.1.after text, ?_⟩
    rw [hp.2, Place.plus_after hp.1]
  have hcounted : Place.start.Counted := ⟨nofun, nofun⟩
  rcases hinner.begun (l := Lexer.ofText (String.ofList part)) hR hslash
    String.toList_ofList (.inr rfl)
    ⟨hcounted, Place.plus_start.symm⟩ with
    ⟨t, ts, m', hwhole, hrest, hkind, hlexeme, hplace, hsame⟩
  refine ⟨⟨(t :: ts).toArray, m'.tokenHere .endOfText []⟩, ?_, ?_⟩
  · rw [hslice]
    exact tokensOf_ok_iff.mpr ⟨m', hwhole, hrest, rfl⟩
  · have hbase : n.place = (stream.get first).place := (congrArg Token.place hfirst).symm
    rw [hbase] at hplace hsame
    have hsize : ts.length = (stream.between first stop).tail.length := hsame.length_eq
    rw [hcons, List.length_cons] at hlength
    refine .of_tokens (by simp only [List.length_cons]; omega) fun p hp => ?_
    have hp : p < stop - first := by
      rw [List.length_cons] at hp
      omega
    have hget := TokenStream.getElem?_between hlt hstop hp
    rw [hcons] at hget
    cases p with
    | zero => exact ⟨hkind, hlexeme, fun hpos => absurd hpos (Nat.lt_irrefl 0), hplace.2, hplace.1⟩
    | succ p =>
        rw [List.getElem?_cons_succ] at hget
        rcases List.getElem?_eq_some_iff.mp hget with ⟨hlt', hget⟩
        have halike := hsame.get (by omega) hlt'
        rw [List.get_eq_getElem, List.get_eq_getElem, hget] at halike
        exact ⟨halike.kind, halike.lexeme, fun _ => halike.newlineBefore, halike.place.2,
          halike.place.1⟩

end Token
end ScriptHints

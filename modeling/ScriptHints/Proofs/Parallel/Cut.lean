import ScriptHints.Proofs.Parallel.Facts
import ScriptHints.Proofs.Parallel.Transport

/-!
# Strict readings of a part of the tokens

A strict reading that succeeds has seen no more than the tokens it has read and the one behind
them. The same tokens, with the same token or the end of the text behind them, are read in the
same way, whatever comes further on. A statement that ends with its semicolon at the end of the
text is read in the same way where another text follows, unless that one begins with `else`.
Inside a construct that forbids `in` as an operator everything is read as it is where `in` is
allowed, unless such an `in` stops the reading.
-/

namespace ScriptHints
namespace Grammar

open Syntax Token

/-!
## Contexts that see the same tokens
-/

/-- The token at the stop is the same in both streams, or the first one ends there. -/
def TightAt (d : Offset) (stop : Nat) (stream stream' : TokenStream) : Prop :=
  (stream.get stop).kind = .endOfText ∨
    (stream'.get (d.tokens + stop)).kind = (stream.get stop).kind ∧
      (stream'.get (d.tokens + stop)).lexeme = (stream.get stop).lexeme ∧
      (0 < stop ->
        (stream'.get (d.tokens + stop)).newlineBefore = (stream.get stop).newlineBefore)

/-- The second stream ends at the stop, behind a semicolon. -/
structure OpenAt (d : Offset) (stop : Nat) (stream stream' : TokenStream) : Prop where
  semicolon : (stream'.get (d.tokens + stop - 1)).kind = .punctuator .semicolon
  kind : (stream'.get (d.tokens + stop)).kind = .endOfText
  noElse : (stream.get stop).kind ≠ .keyword .elseWord

/-- The first stream has the tokens of the second one up to a stop. A line end in front of the
first of these tokens does not count. -/
structure CutAt (d : Offset) (stop : Nat) (stream stream' : TokenStream) : Prop where
  size : stop ≤ stream.size
  kind (p : Nat) : p < stop ->
    (stream'.get (d.tokens + p)).kind = (stream.get p).kind
  lexeme (p : Nat) : p < stop ->
    (stream'.get (d.tokens + p)).lexeme = (stream.get p).lexeme
  newlineBefore (p : Nat) : 0 < p -> p < stop ->
    (stream'.get (d.tokens + p)).newlineBefore = (stream.get p).newlineBefore
  next : TightAt d stop stream stream' ∨ OpenAt d stop stream stream'

/-- The first context is for the tokens up to a stop. It may allow an `in` that the second one
forbids, and be less deep. -/
structure Narrows (d : Offset) (stop : Nat) (stream stream' : TokenStream) (c c' : Context) :
    Prop where
  cut : CutAt d stop stream stream'
  next : (stream.get stop).kind = .keyword .inWord -> c'.allowIn = c.allowIn
  strict : c'.Strict stream'
  recover : c.options.recover = false
  depth : c.depth ≤ c'.depth
  allowIn : c'.allowIn = true -> c.allowIn = true
  stream : c.stream = stream

namespace Narrows

variable {d : Offset} {stop : Nat} {stream stream' : TokenStream} {c c' : Context}

theorem allowingIn (h : Narrows d stop stream stream' c c') :
    Narrows d stop stream stream' c.allowingIn c'.allowingIn :=
  { h with
    strict := ⟨h.strict.stream, h.strict.recover⟩
    allowIn := fun _ => rfl
    next := fun _ => rfl }

theorem forbiddingIn (h : Narrows d stop stream stream' c c') :
    Narrows d stop stream stream' c.forbiddingIn c'.forbiddingIn :=
  { h with
    strict := ⟨h.strict.stream, h.strict.recover⟩
    allowIn := fun h => h
    next := fun _ => rfl }

theorem deeper (h : Narrows d stop stream stream' c c') :
    Narrows d stop stream stream' c.deeper c'.deeper :=
  { h with
    strict := ⟨h.strict.stream, h.strict.recover⟩
    depth := Nat.succ_le_succ h.depth }

theorem forbids (h : Narrows d stop stream stream' c c') (hdiffer : c'.allowIn ≠ c.allowIn) :
    c'.allowIn = false := by
  rw [Bool.eq_false_iff]
  exact fun hallows => hdiffer (hallows.trans (h.allowIn hallows).symm)

/-- The same operator stands before both readings, or an `in` that is none for the second. -/
theorem operatorAt?_eq_or (h : Narrows d stop stream stream' c c') (kind : TokenKind) :
    operatorAt? c' kind = operatorAt? c kind ∨
      c'.allowIn ≠ c.allowIn ∧ kind = .keyword .inWord ∧ operatorAt? c' kind = none := by
  by_cases hsame : c'.allowIn = c.allowIn
  · exact .inl (operatorAt?_eq hsame kind)
  · have hforbids := h.forbids hsame
    have hallows : c.allowIn = true := by
      rw [hforbids] at hsame
      exact (Bool.not_eq_false _).mp fun h => hsame h.symm
    by_cases hin : kind = .keyword .inWord
    · refine .inr ⟨hsame, hin, ?_⟩
      rw [hin]
      unfold operatorAt?
      rw [hforbids]
      rfl
    · refine .inl ?_
      unfold operatorAt?
      cases hkind : BinaryOperator.ofKind? kind with
      | none => rfl
      | some operator =>
          rw [BinaryOperator.ofKind?_eq_some_iff] at hkind
          have hother : operator ≠ .isMember := by
            rintro rfl
            exact hin hkind.symm
          simp [Option.filter, hother]

end Narrows

/-- Where the second reading has halted and the first one may go on: before the stop at an `in`
that only the first context allows, or at the stop behind a list of statements. -/
inductive HaltsAt (d : Offset) (stop : Nat) (stream' : TokenStream) (differ : Prop) (k : Facts)
    (p : Nat) : Prop where
  | atIn :
      differ ->
      k.agreed = false ->
      p < d.tokens + stop ->
      (stream'.get p).kind = .keyword .inWord ->
      HaltsAt d stop stream' differ k p
  | atStop :
      k.closed = false ->
      p = d.tokens + stop ->
      (stream'.get p).kind = .endOfText ->
      HaltsAt d stop stream' differ k p

theorem HaltsAt.halted {d : Offset} {stop : Nat} {stream' : TokenStream} {differ : Prop} {k : Facts}
    {p : Nat} (h : HaltsAt d stop stream' differ k p) : k.Halted stream' p := by
  cases h with
  | atIn _ hagreed _ hkind => exact .inl ⟨hagreed, hkind⟩
  | atStop hclosed _ hkind => exact .inr ⟨hclosed, hkind⟩

theorem HaltsAt.of_halted {d : Offset} {stop : Nat} {stream' : TokenStream} {differ : Prop}
    {k l : Facts} {p : Nat} (h : HaltsAt d stop stream' differ k p) (hl : l.Halted stream' p) :
    HaltsAt d stop stream' differ l p := by
  cases h with
  | atIn hdiffer _ hbefore hkind =>
      rcases hl with ⟨hagreed, _⟩ | ⟨_, hend⟩
      · exact .atIn hdiffer hagreed hbefore hkind
      · rw [hkind] at hend
        cases hend
  | atStop _ hstop hkind =>
      rcases hl with ⟨_, hin⟩ | ⟨hclosed, _⟩
      · rw [hkind] at hin
        cases hin
      · exact .atStop hclosed hstop hkind

def Spanning (d : Offset) (stream stream' : TokenStream) (spans : Span → Span → Prop) : Prop :=
  forall (c c' : Context) (first stop : Nat), c.stream = stream -> c'.stream = stream' ->
    spans (c.spanOf first stop) (c'.spanOf (d.tokens + first) (d.tokens + stop))

theorem spanning_any (d : Offset) (stream stream' : TokenStream) :
    Spanning d stream stream' fun _ _ => True :=
  fun _ _ _ _ _ _ => trivial

/-- A reading of the second kind is followed by one of the first kind, or it has halted. -/
def FollowedBy (d : Offset) (stop : Nat) (spans : Span → Span → Prop) (old : State) {α β : Type}
    (v : α → β) (halts : Nat → Prop) (r : EStateM.Result SyntaxError State α)
    (r' : EStateM.Result SyntaxError State β) : Prop :=
  forall b s', r' = .ok b s' -> s'.position ≤ d.tokens + stop ->
    (exists a s, r = .ok a s ∧ b = v a ∧ Continues d (.loose spans) old s s') ∨ halts s'.position

/-!
## Steps
-/

section

variable {d : Offset} {stop : Nat} {stream stream' : TokenStream} {spans : Span → Span → Prop}
  {old s s' : State}

theorem CutAt.alike_of_lt (h : CutAt d stop stream stream') {k : Facts} {p : Nat}
    (hk : k.moved = true -> 0 < p) (hp : p < stop) :
    k.Alike (stream.get p) (stream'.get (d.tokens + p)) :=
  ⟨h.kind p hp, h.lexeme p hp, fun hm => h.newlineBefore p (hk hm) hp⟩

/-- Up to the stop both streams have the same tokens, unless one of them ends. -/
theorem CutAt.cases_of_le (h : CutAt d stop stream stream') {k : Facts} {p : Nat}
    (hk : k.moved = true -> 0 < p) (hp : p ≤ stop) :
    k.Alike (stream.get p) (stream'.get (d.tokens + p)) ∨ (stream.get p).kind = .endOfText ∨
      p = stop ∧ OpenAt d stop stream stream' ∧ ¬ TightAt d stop stream stream' := by
  rcases Nat.lt_or_eq_of_le hp with hlt | heq
  · exact .inl (h.alike_of_lt hk hlt)
  · rw [heq] at hk ⊢
    by_cases htight : TightAt d stop stream stream'
    · rcases htight with hend | ⟨hkind, hlexeme, hline⟩
      · exact .inr (.inl hend)
      · exact .inl ⟨hkind, hlexeme, fun hm => hline (hk hm)⟩
    · exact .inr (.inr ⟨rfl, h.next.resolve_left htight, htight⟩)

theorem CutAt.near_of_le (h : CutAt d stop stream stream') {k : Facts} {p : Nat}
    (hk : k.moved = true -> 0 < p) (hp : p ≤ stop)
    (hopen : p = stop -> ¬ TightAt d stop stream stream' -> k.unended = false) :
    k.Near (stream.get p) (stream'.get (d.tokens + p)) := by
  rcases h.cases_of_le hk hp with halike | hend | ⟨hat, hopenAt, hloose⟩
  · exact .alike halike
  · exact .atEnd hend
  · rw [hat]
    exact .behindStatement (hopen hat hloose) hopenAt.noElse hopenAt.kind

/-- Behind an open stop stands a semicolon, with which no expression ends. -/
theorem Facts.Holds.unended_of_openAt {k : Facts} {start : Nat} (hk : k.Holds d stream' start s')
    (hopen : OpenAt d stop stream stream') (hat : s'.position = d.tokens + stop)
    (hstart : start ≠ d.tokens + stop) : k.unended = false := by
  have honward := hk.onward
  cases hunended : k.unended with
  | false => rfl
  | true =>
      have hother := hk.unended hunended (by omega)
      rw [hat] at hother
      exact absurd hopen.semicolon hother

namespace Continues

variable {c c' : Context} (h : Continues d (.loose spans) old s s')
  (hc : Narrows d stop stream stream' c c')
include h hc

theorem addedSame (hspans : Spanning d stream stream' spans) {start start' : Nat}
    (hstart : start' = d.tokens + start) (node : Node) :
    Continues d (.loose spans) old (s.added c start node) (s'.added c' start' (node.map d.id)) := by
  apply h.addedAt
  rw [h.position, hstart]
  exact hspans c c' start s.position hc.stream hc.strict.stream

theorem next'_eq : c'.next s' = stream'.get (d.tokens + s.position) := by
  rw [hc.strict.next_eq, h.position]

theorem kind_next_of_lt (hlt : s.position < stop) : (c'.next s').kind = (c.next s).kind := by
  rw [h.next'_eq hc, Context.next, hc.stream]
  exact hc.cut.kind s.position hlt

theorem lexeme_next_of_lt (hlt : s.position < stop) :
    (c'.next s').lexeme = (c.next s).lexeme := by
  rw [h.next'_eq hc, Context.next, hc.stream]
  exact hc.cut.lexeme s.position hlt

omit hc in
theorem nodes_le : d.nodes ≤ s'.tree.size := by
  have hsize : s'.tree.size = d.nodes + s.tree.size := congrArg NodeId.index h.tree.nextId
  omega

omit hc in
theorem front_le : d.tokens ≤ s'.position := by
  rw [h.position]
  exact Nat.le_add_right _ _

theorem moved_of_lt (hlt : s.position < stop) (hend : (c'.next s').kind ≠ .endOfText)
    (ended : stream'.Ended) : Continues d (.loose spans) old (s.moved c) (s'.moved c') := by
  have hsize : s.position < c.stream.size := by
    rw [hc.stream]
    exact Nat.lt_of_lt_of_le hlt hc.cut.size
  have hsize' : s'.position < c'.stream.size := by
    rw [hc.strict.stream]
    apply Nat.lt_of_not_le
    intro hle
    apply hend
    rw [hc.strict.next_eq]
    exact (ended.kind_get_eq_iff _).mpr hle
  unfold State.moved
  rw [if_pos hsize, if_pos hsize']
  exact { h with
    position := congrArg (· + 1) h.position
    tree := h.tree }

/-- Both readings move behind a label and its colon before the stop. -/
theorem labeled (hspans : Spanning d stream stream' spans) (hlt : s.position + 1 < stop)
    (hkind : (c'.next s').kind = .identifier)
    (hcolon : (c'.stream.get (s'.position + 1)).kind = .punctuator .colon)
    (ended : stream'.Ended) :
    Continues d (.loose spans) old
      (((s.moved c).added c s.position (.identifier (c.next s).lexeme)).moved c)
      (((s'.moved c').added c' s'.position (.identifier (c'.next s').lexeme)).moved c') := by
  have hlexeme := h.lexeme_next_of_lt hc (by omega)
  have hmoved := h.moved_of_lt hc (by omega) (by rw [hkind]; exact nofun) ended
  have hposition : (s.moved c).position = s.position + 1 := by
    unfold State.moved
    rw [if_pos (by rw [hc.stream]; exact Nat.lt_of_lt_of_le (Nat.lt_of_succ_lt hlt) hc.cut.size)]
  have hnamed : Continues d (.loose spans) old
      ((s.moved c).added c s.position (.identifier (c.next s).lexeme))
      ((s'.moved c').added c' s'.position (.identifier (c.next s).lexeme)) :=
    hmoved.addedSame hc hspans h.position (.identifier (c.next s).lexeme)
  rw [hlexeme]
  refine hnamed.moved_of_lt hc (by show (s.moved c).position < stop; omega) ?_ ended
  have hsecond : (s'.moved c').position = s'.position + 1 := by
    rw [hmoved.position, hposition, h.position, Nat.add_assoc]
  show (c'.stream.get (s'.moved c').position).kind ≠ _
  rw [hsecond, hcolon]
  exact nofun

end Continues

namespace FollowedBy

variable {α β γ δ : Type} {u : α → β} {v : γ → δ} {halts halts' : Nat → Prop}

theorem ok {a : α} (h : Continues d (.loose spans) old s s') :
    FollowedBy d stop spans old u halts (.ok a s) (.ok (u a) s') := by
  rintro _ _ ⟨rfl⟩ _
  exact .inl ⟨a, s, rfl, rfl, h⟩

theorem error {r : EStateM.Result SyntaxError State α} {e : SyntaxError} :
    FollowedBy d stop spans old u halts r (.error e s') := by
  intro b s₁ heq
  cases heq

theorem bind {x : Reader α} {x' : Reader β} {f : α → Reader γ} {f' : β → Reader δ}
    (hx : FollowedBy d stop spans old u halts (x s) (x' s'))
    (honward : forall b s₁' b' s₂', x' s' = .ok b s₁' -> f' b s₁' = .ok b' s₂' ->
      s₁'.position ≤ s₂'.position)
    (hstays : forall b s₁' b' s₂', x' s' = .ok b s₁' -> f' b s₁' = .ok b' s₂' ->
      halts s₁'.position -> s₂'.position = s₁'.position ∧ halts' s₁'.position)
    (hf : forall a s₁ s₁', x' s' = .ok (u a) s₁' -> Continues d (.loose spans) old s₁ s₁' ->
      FollowedBy d stop spans old v halts' (f a s₁) (f' (u a) s₁')) :
    FollowedBy d stop spans old v halts' ((x >>= f) s) ((x' >>= f') s') := by
  intro b' s₂' hread hstop
  rcases bind_ok_iff.mp hread with ⟨b, s₁', hxb, hfb⟩
  rcases hx b s₁' hxb (Nat.le_trans (honward b s₁' b' s₂' hxb hfb) hstop) with
    ⟨a, s₁, hxa, rfl, hs₁⟩ | hhalts
  · rcases hf a s₁ s₁' hxb hs₁ b' s₂' hfb hstop with ⟨a', s₂, hfa, hvalue, hs₂⟩ | hhalts
    · exact .inl ⟨a', s₂, bind_ok_iff.mpr ⟨a, s₁, hxa, hfa⟩, hvalue, hs₂⟩
    · exact .inr hhalts
  · rcases hstays b s₁' b' s₂' hxb hfb hhalts with ⟨hsame, hhalts'⟩
    rw [hsame]
    exact .inr hhalts'

end FollowedBy

namespace Continues

variable {start : Nat} {k : Facts} {c c' : Context} {halts : Nat → Prop}
  (h : Continues d (.loose spans) old s s') (hc : Narrows d stop stream stream' c c')
include h hc

theorem followedAdd (hspans : Spanning d stream stream' spans) {first first' : Nat}
    (hfirst : first' = d.tokens + first) (node : Node) :
    FollowedBy d stop spans old d.id halts (Grammar.addSince c first node s)
      (Grammar.addSince c' first' (node.map d.id) s') := by
  rw [addSince_eq, addSince_eq, h.tree.nextId]
  exact .ok (h.addedSame hc hspans hfirst node)

variable (ended : stream'.Ended) (hk : k.Holds d stream' start s')
include ended hk

theorem followedAdvance {kind : TokenKind} (hkind : (stream'.get s'.position).kind = kind)
    (hend : kind ≠ .endOfText) :
    FollowedBy d stop spans old id halts (advance c s) (advance c' s') := by
  intro b s₁' heq hstop
  rw [advance_eq] at heq ⊢
  cases heq
  have hposition := h.position
  rw [(hk.behind ended hc.strict.stream hkind hend).2] at hstop
  refine .inl ⟨(), _, rfl, rfl, h.moved_of_lt hc (by omega) ?_ ended⟩
  rw [hc.strict.next_eq, hkind]
  exact hend

theorem followedExpect (mark : Punctuator) (what : Expectation) :
    FollowedBy d stop spans old id halts (Grammar.expect c mark what s)
      (Grammar.expect c' mark what s') := by
  intro b s₁' heq hstop
  rw [expect_eq] at heq ⊢
  split at heq
  next hkind =>
    have hadvance : advance c' s' = .ok b s₁' := heq
    have hnext := (hc.strict.kind_eq s').trans hkind
    have hlt : s.position < stop := by
      have hmoved := (hk.behind ended hc.strict.stream hnext nofun).2
      have hposition := h.position
      rw [advance_eq] at hadvance
      cases hadvance
      omega
    rw [if_pos ((h.kind_next_of_lt hc hlt).symm.trans hkind)]
    exact h.followedAdvance hc ended hk hnext nofun b s₁' hadvance hstop
  next => cases heq

/-- A statement ends with its semicolon before the stop, or both readings end it without one. -/
theorem followedEnding (hmoved : k.moved = true) (hunended : k.unended = true)
    (hstart : start = d.tokens + stop -> TightAt d stop stream stream') (ending : Ending) :
    FollowedBy d stop spans old id halts (ending.read c s) (ending.read c' s') := by
  intro b s₁' heq hstop
  have hposition := h.position
  have hpos : 0 < s.position := by
    have hlt := hk.moved hmoved
    have hfront := hk.front
    omega
  have hle : s'.position ≤ s₁'.position :=
    (Keeps.ending ended hc.strict hk hmoved ending b s₁' heq).2.2
  by_cases hmark : (c'.next s').kind = .punctuator .semicolon
  · rw [ending.read_of_semicolon hmark] at heq
    have hnext := (hc.strict.kind_eq s').trans hmark
    have hlt : s.position < stop := by
      have hmoves := (hk.behind ended hc.strict.stream hnext nofun).2
      rw [advance_eq] at heq
      cases heq
      omega
    rw [ending.read_of_semicolon ((h.kind_next_of_lt hc hlt).symm.trans hmark)]
    exact h.followedAdvance hc ended hk hnext nofun b s₁' heq hstop
  · rcases (ending.read_ok_iff hmark).mp heq with ⟨hallows, rfl⟩
    have hends : (c.next s).kind ≠ .punctuator .semicolon ∧ ending.Allows (c.next s) := by
      rw [h.next'_eq hc] at hmark hallows
      rw [Context.next, hc.stream]
      rcases hc.cut.cases_of_le (k := k) (fun _ => hpos) (by omega) with
        halike | hend | ⟨hat, hopen, hloose⟩
      · rw [← halike.kind]
        exact ⟨hmark, (halike.allows_iff hmoved ending).mp hallows⟩
      · refine ⟨fun hsemicolon => ?_, ending.allows_of_end hend⟩
        rw [hend] at hsemicolon
        cases hsemicolon
      · -- Behind the semicolon of an open stop no statement ends.
        have hended := hk.unended_of_openAt hopen (by omega) fun hsame => hloose (hstart hsame)
        rw [hunended] at hended
        cases hended
    exact .inl ⟨(), s, (ending.read_ok_iff hends.1).mpr ⟨hends.2, rfl⟩, rfl, h⟩

theorem followedName (hspans : Spanning d stream stream' spans) (what : Expectation) :
    FollowedBy d stop spans old d.id halts (Grammar.newName c what s)
      (Grammar.newName c' what s') := by
  intro b s₁' heq hstop
  rw [newName_eq] at heq ⊢
  split at heq
  next hkind =>
    cases heq
    have hnext := (hc.strict.kind_eq s').trans hkind
    have hlt : s.position < stop := by
      have hmoved := (hk.behind ended hc.strict.stream hnext nofun).2
      have hposition := h.position
      have hstop : (s'.moved c').position ≤ d.tokens + stop := hstop
      omega
    rw [if_pos ((h.kind_next_of_lt hc hlt).symm.trans hkind), h.lexeme_next_of_lt hc hlt,
      h.tree.nextId]
    refine .inl ⟨_, _, rfl, rfl, ?_⟩
    refine (h.moved_of_lt hc hlt ?_ ended).addedSame hc hspans h.position
      (.identifier (c.next s).lexeme)
    rw [hkind]
    exact nofun
  next => cases heq

end Continues

end

end Grammar
end ScriptHints

import ScriptHints.Proofs.Parallel.Cut

/-!
# The grammar follows

Whatever the rules of the grammar read up to a stop, they read where the text is cut off there.
-/

namespace ScriptHints
namespace Grammar

open Syntax Token

/-- Every goal that is reached is followed. No goal begins at an open stop. -/
def Strategy.Follows (d : Offset) (stop : Nat) (stream stream' : TokenStream)
    (spans : Span → Span → Prop) (old : State) (reach reach' : Strategy) : Prop :=
  forall (goal : Goal) (start' : Nat) (c c' : Context) (s s' : State),
    Narrows d stop stream stream' c c' -> s'.position ≤ stream'.size ->
      Continues d (.loose spans) old s s' ->
        (goal.isTail = true -> start' = d.tokens + goal.start) ->
        (s.position = stop -> TightAt d stop stream stream') ->
        FollowedBy d stop spans old (goal.placedResult d start')
          (HaltsAt d stop stream' (c'.allowIn ≠ c.allowIn) (Facts.start.after goal false))
          (reach goal c s) (reach' (goal.placed d start') c' s')

/-- The readings inside a reading. They agree on `in` if the reading around them does. -/
def Scope.narrows (d : Offset) (stop : Nat) (stream stream' : TokenStream) (differ : Prop) :
    Scope where
  link c c' := Narrows d stop stream stream' c c' ∧ (c'.allowIn ≠ c.allowIn -> differ)
  allowingIn h := ⟨h.1.allowingIn, fun hne => absurd rfl hne⟩
  forbiddingIn h := ⟨h.1.forbiddingIn, fun hne => absurd rfl hne⟩
  deeper h := ⟨h.1.deeper, h.2⟩
  starts start start' := start' = d.tokens + start
  adds _ := True
  reaches goal := goal.isOperation = false
  noOperation _ h := h

theorem Scope.full_narrows (d : Offset) (stop : Nat) (stream stream' : TokenStream)
    (differ : Prop) : (Scope.narrows d stop stream stream' differ).Full where
  adds _ := trivial
  reaches _ h := h

section

variable {d : Offset} {stop : Nat} {stream stream' : TokenStream} {differ : Prop}

theorem Scope.strict_of_narrows {c c' : Context}
    (h : (Scope.narrows d stop stream stream' differ).link c c') : c'.Strict stream' :=
  h.1.strict

theorem Scope.starts_narrows (p : Nat) (hp : d.tokens ≤ p) :
    exists first, (Scope.narrows d stop stream stream' differ).starts first p :=
  ⟨p - d.tokens, (Nat.add_sub_cancel' hp).symm⟩

end

/-- The second attempt is followed by the first one from where the facts hold. -/
def Attempt.Follows (d : Offset) (stop : Nat) (stream' : TokenStream) (spans : Span → Span → Prop)
    (old : State) (reach reach' : Strategy) (start : Nat) (differ : Prop) {α β : Type} (u : α → β)
    (k l : Facts) (x : Attempt α) (x' : Attempt β) : Prop :=
  forall s s', k.Holds d stream' start s' -> Continues d (.loose spans) old s s' ->
    FollowedBy d stop spans old u (HaltsAt d stop stream' differ l) (x reach s) (x' reach' s')

section

variable {d : Offset} {stop : Nat} {stream stream' : TokenStream} {spans : Span → Span → Prop}
  {old : State} (hspans : Spanning d stream stream' spans)
  (ended : stream'.Ended) {reach reach' : Strategy} (hfacts : reach'.KeepsFacts d stream')
  (hbarred : reach'.Barred d stream')
  (hreach : Strategy.Follows d stop stream stream' spans old reach reach')

include hspans ended hfacts hbarred hreach

section

variable {start : Nat} {differ : Prop} {c c' : Context}
  (hc : (Scope.narrows d stop stream stream' differ).link c c')
  (hstart : start = d.tokens + stop -> TightAt d stop stream stream')
include hc hstart

omit hspans hbarred hreach in
/-- Up to the stop both readings see the same token, and at the stop the second one stays. -/
theorem Attempt.follows_look {α β : Type} {v : α → β} {k l m : Facts} {f : Token → Attempt α}
    {f' : Token → Attempt β} {stays : Token → Bool} (hmm : m.moved = true)
    (hml : m.Covers l)
    (hstay : forall t t', stays t' = true -> k.Near t t' ->
      Parallel d (Scope.narrows d stop stream stream' differ) v k.unseen (f t) (f' t') l)
    (hread : forall t t', stays t' = false -> k.Alike t t' -> forall k' : Facts, k.Leaves k' ->
      Parallel d (Scope.narrows d stop stream stream' differ) v (k'.seeing t.kind) (f t) (f' t') m)
    (ihstay : forall t t', stays t' = true -> k.Near t t' ->
      Follows d stop stream' spans old reach reach' start differ v k.unseen l (f t) (f' t'))
    (ihread : forall t t', stays t' = false -> k.Alike t t' ->
      Follows d stop stream' spans old reach reach' start differ v (k.seeing t.kind) m (f t)
      (f' t')) :
    Follows d stop stream' spans old reach reach' start differ v k l
      (fun reach => peek c >>= fun t => f t reach)
      (fun reach => peek c' >>= fun t => f' t reach) := by
  intro s s' hk hs b s₁' heq hstop
  have heq : f' (c'.next s') reach' s' = .ok b s₁' := heq
  have hposition := hs.position
  have hpos (hm : k.moved = true) : 0 < s.position := by
    have hstart := hk.moved hm
    have hfront := hk.front
    omega
  cases hstays : stays (c'.next s') with
  | true =>
      have hle := ((hstay (c'.next s') _ hstays (.refl _ _)).keeps ended
        (fun _ _ => Scope.strict_of_narrows) Scope.starts_narrows hfacts start s' hk.unseen b
        s₁' heq).2.2
      have hnear := hc.1.cut.near_of_le (k := k) (p := s.position) hpos (by omega)
        fun hat hloose => hk.unended_of_openAt (hc.1.cut.next.resolve_left hloose) (by omega)
          fun hsame => hloose (hstart hsame)
      rw [← hs.next'_eq hc.1] at hnear
      rw [← hc.1.stream] at hnear
      exact ihstay _ _ hstays hnear s s' hk.unseen hs b s₁' heq hstop
  | false =>
      have hseen := (hc.1.strict.kind_eq s').symm
      -- The reading moves on from here, so that it is not yet at the stop.
      have hmoves := ((hread (c'.next s') _ hstays (.refl _ _)
        { Facts.start with agreed := k.agreed, inside := k.inside } ⟨rfl, rfl⟩).keeps ended
          (fun _ _ => Scope.strict_of_narrows) Scope.starts_narrows hfacts s'.position s'
        (.here (Nat.le_trans hk.front hk.onward) hk.bounded hk.nodes rfl hk.inside
          (by rintro _ ⟨rfl⟩; exact hseen.symm)) b s₁' heq).2.1.moved hmm
      have hlt : s.position < stop := by omega
      have halike := hc.1.cut.alike_of_lt (k := k) hpos hlt
      rw [← hs.next'_eq hc.1] at halike
      rw [← hc.1.stream] at halike
      have hseeing : (k.seeing (c.next s).kind).Holds d stream' start s' := by
        have hseeing := hk.seeing
        rw [← hseen, hs.kind_next_of_lt hc.1 hlt] at hseeing
        exact hseeing
      rcases ihread _ _ hstays halike s s' hseeing hs b s₁' heq hstop with hfollowed | hhalts
      · exact .inl hfollowed
      · exact .inr (hhalts.of_halted (hhalts.halted.covers hml))

omit hbarred hreach in
/-- A statement ends in both readings, unless the first one has halted before. -/
theorem Attempt.follows_endedBy {α β : Type} {u : α → β} {k m : Facts} {front : Attempt α}
    {front' : Attempt β} {ending : Ending} {node : α → Node} {node' : β → Node}
    (hfront : Parallel d (Scope.narrows d stop stream stream' differ) u k front front' m)
    (hnode : forall a, node' (u a) = (node a).map d.id) (hmoved : m.moved = true)
    (hunended : m.unended = true) (hclosed : m.closed = true)
    (ih : Follows d stop stream' spans old reach reach' start differ u k m front front') :
    Follows d stop stream' spans old reach reach' start differ d.id k .ended
      (fun reach => endedBy c ending node (front reach))
      (fun reach => endedBy c' ending node' (front' reach)) := by
  intro s s' hk hs
  show FollowedBy d stop spans old d.id _ (endedBy c ending node (front reach) s)
    (endedBy c' ending node' (front' reach') s')
  unfold endedBy
  rw [bind_position, bind_position]
  have hkeeps := hfront.keeps ended (fun _ _ => Scope.strict_of_narrows) Scope.starts_narrows hfacts
    start s' hk
  refine (ih s s' hk hs).bind ?_ ?_ fun parts s₁ s₁' hread hs₁ => ?_
  · intro b s₁' _ s₂' hread hends
    rcases bind_ok_iff.mp hends with ⟨_, _, hending, hadd⟩
    cases hadd
    exact (Keeps.ending ended hc.1.strict (hkeeps b s₁' hread).2.1 hmoved ending _ _ hending).2.2
  · -- What is closed has not halted at the end of the text, and an `in` is no semicolon.
    intro _ s₁' _ s₂' hread hends hhalts
    cases hhalts with
    | atStop hopen _ _ =>
        rw [hclosed] at hopen
        cases hopen
    | atIn hdiffer _ hbefore hin =>
        rcases bind_ok_iff.mp hends with ⟨_, s₂, hending, hadd⟩
        have hother : (c'.next s₁').kind ≠ .punctuator .semicolon := by
          unfold Context.next
          rw [hc.1.strict.stream, hin]
          exact nofun
        rw [((ending.read_ok_iff hother).mp hending).2] at hadd
        cases hadd
        exact ⟨rfl, .atIn hdiffer rfl hbefore hin⟩
  · have hm := (hkeeps _ s₁' hread).2.1
    have hending : FollowedBy d stop spans old id (fun _ => False) (ending.read c s₁)
        (ending.read c' s₁') :=
      hs₁.followedEnding hc.1 ended hm hmoved hunended hstart ending
    refine hending.bind ?_
      (fun _ _ _ _ _ _ hfalse => hfalse.elim) fun _ s₂ s₂' _ hs₂ => ?_
    · intro _ s₂' _ s₃' _ hadd
      cases hadd
      exact Nat.le_refl _
    · rw [hnode]
      exact hs₂.followedAdd hc.1 hspans hs.position (node parts)

omit hbarred hreach hstart in
/-- The colon behind a name is before the stop if what follows it is. -/
theorem Attempt.follows_labeledOr {k l : Facts} {x x' : Nat → NodeId → Attempt NodeId}
    {y y' : Attempt NodeId} (hnext : k.next = some .identifier)
    (hx : forall start start' name, (Scope.narrows d stop stream stream' differ).starts
      start start' ->
      Parallel d (Scope.narrows d stop stream stream' differ) d.id .read (x start name)
        (x' start' (d.id name)) l)
    (hy : forall k' : Facts, Parallel d (Scope.narrows d stop stream stream' differ) d.id
      (k'.seeing .identifier) y y' l)
    (hl : l.moved = true)
    (ihx : forall start₁ start₁' name,
      (Scope.narrows d stop stream stream' differ).starts start₁ start₁' ->
      Follows d stop stream' spans old reach reach' start differ d.id .read l (x start₁ name)
        (x' start₁' (d.id name)))
    (ihy : Follows d stop stream' spans old reach reach' start differ d.id
      (k.seeing .identifier) l y y') :
    Follows d stop stream' spans old reach reach' start differ d.id k l
      (fun reach => labeledOr c (fun start name => x start name reach) (y reach))
      (fun reach => labeledOr c' (fun start name => x' start name reach) (y' reach)) := by
  intro s s' hk hs b s₁' heq hstop
  have heq : labeledOr c' (fun start name => x' start name reach') (y' reach') s' = .ok b s₁' := heq
  show (exists a s₁, labeledOr c (fun start name => x start name reach) (y reach) s =
    .ok a s₁ ∧ _) ∨ _
  have hposition := hs.position
  have hkind : (c'.next s').kind = .identifier := by
    unfold Context.next
    rw [hc.1.strict.stream]
    exact hk.next _ hnext
  rw [labeledOr_eq] at heq ⊢
  split at heq
  next hcolon =>
    rw [bind_newName, if_pos hkind, bind_advance] at heq
    rcases hk.label ended hc.1.strict hkind hcolon rfl with ⟨hread, hmoved⟩
    have heq : x' s'.position (d.id s.tree.nextId) reach'
        (((s'.moved c').added c' s'.position (.identifier (c'.next s').lexeme)).moved c') =
          .ok b s₁' := by
      rw [← hs.tree.nextId]
      exact heq
    -- Two tokens have been read, so that the colon is before the stop.
    have hle := ((hx s.position s'.position s.tree.nextId hposition).keeps ended
      (fun _ _ => Scope.strict_of_narrows) Scope.starts_narrows hfacts start _ hread b s₁' heq).2.2
    have hcolon₁ : (c.stream.get (s.position + 1)).kind = .punctuator .colon := by
      rw [hc.1.stream, ← hc.1.cut.kind (s.position + 1) (by omega), ← Nat.add_assoc,
        ← hposition, ← hc.1.strict.stream]
      exact hcolon
    have hlt : s.position < stop := by omega
    rw [if_pos hcolon₁, bind_newName, if_pos ((hs.kind_next_of_lt hc.1 hlt).symm.trans hkind),
      bind_advance]
    exact ihx s.position s'.position s.tree.nextId hposition _ _ hread
      (hs.labeled hc.1 hspans (by omega) hkind hcolon ended) b s₁' heq hstop
  next hcolon =>
    have hmoves :=
      ((hy .start).keeps ended (fun _ _ => Scope.strict_of_narrows) Scope.starts_narrows
      hfacts s'.position s' (.here (Nat.le_trans hk.front hk.onward) hk.bounded hk.nodes rfl nofun
        (by rintro _ ⟨rfl⟩; exact hk.next _ hnext)) b s₁' heq).2.1.moved hl
    have hother : (c.stream.get (s.position + 1)).kind ≠ .punctuator .colon := by
      rw [hc.1.stream]
      rcases hc.1.cut.cases_of_le (k := .start) (p := s.position + 1) nofun (by omega) with
        halike | hend | ⟨hat, hopen, _⟩
      · rw [← halike.kind, ← Nat.add_assoc, ← hposition, ← hc.1.strict.stream]
        exact hcolon
      · rw [hend]
        exact nofun
      · -- A name is no semicolon.
        have hname := hk.next _ hnext
        have hsemicolon := hopen.semicolon
        rw [← hat, ← Nat.add_assoc, Nat.add_sub_cancel, ← hposition, hname] at hsemicolon
        cases hsemicolon
    rw [if_neg hother]
    exact ihy s s' { hk with next := by rintro kind ⟨rfl⟩; exact hk.next _ hnext } hs b
      s₁' heq hstop

omit hspans ended hbarred in
theorem Attempt.follows_goal {k : Facts} {goal : Goal} {first : Nat} {agreed : Bool}
    (hfirst : goal.isTail = true -> first = d.tokens + goal.start)
    (hagreed : agreed = true -> c'.allowIn = c.allowIn ∧ goal.mayBeEmpty = false) :
    Follows d stop stream' spans old reach reach' start differ (goal.placedResult d first) k
      (k.after goal agreed) (fun reach => reach goal c)
      (fun reach => reach (goal.placed d first) c') := by
  intro s s' hk hs b s₁' heq hstop
  have hposition := hs.position
  have hfront := Nat.le_trans hk.front hk.onward
  rcases hfacts goal first c' s' hc.1.strict hfront hk.bounded hk.nodes b s₁' heq with
    ⟨_, hgoal, honward⟩
  by_cases htight : s.position = stop -> TightAt d stop stream stream'
  · rcases hreach goal first c c' s s' hc.1 hk.bounded hs hfirst htight b s₁' heq hstop with
      hfollowed | hhalts
    · exact .inl hfollowed
    · refine .inr ?_
      cases hhalts with
      | atIn hdiffer _ hbefore hkind =>
          refine .atIn (hc.2 hdiffer) ?_ hbefore hkind
          cases agreed with
          | false => rfl
          | true => exact absurd (hagreed rfl).1 hdiffer
      | atStop hclosed hat hkind =>
          refine .atStop ?_ hat hkind
          have hopen : goal.isOpen = true := by
            simpa [Facts.after, Facts.start] using hclosed
          simp [Facts.after, hopen]
  · rw [Classical.not_imp] at htight
    rcases htight with ⟨hat, hloose⟩
    have hopen := hc.1.cut.next.resolve_left hloose
    have hended := hk.unended_of_openAt hopen (by omega) fun hsame => hloose (hstart hsame)
    have hempty : goal.mayBeEmpty = true := by
      cases hgoal' : goal.mayBeEmpty with
      | true => rfl
      | false =>
          have hmoves := hgoal.moved (by simp [Facts.after, hgoal'])
          omega
    have hend : s₁'.position = d.tokens + stop := by omega
    refine .inr (.atStop ?_ hend ?_)
    · simp [Facts.after, hempty, hended]
    · rw [hend]
      exact hopen.kind

end

theorem Parallel.follows {α β : Type} {u : α → β} {k l : Facts} {differ : Prop} {x : Attempt α}
    {x' : Attempt β} (h : Parallel d (Scope.narrows d stop stream stream' differ) u k x x' l)
    (start : Nat) (hstart : start = d.tokens + stop -> TightAt d stop stream stream')
    {s s' : State} (hk : k.Holds d stream' start s') (hs : Continues d (.loose spans) old s s') :
    FollowedBy d stop spans old u (HaltsAt d stop stream' differ l) (x reach s) (x' reach' s') := by
  have hlink (c c' : Context) (h : (Scope.narrows d stop stream stream' differ).link c c') :
      c'.Strict stream' := h.1.strict
  induction h generalizing s s' with
  | pure v k a => exact .ok hs
  | @bind _ _ _ _ u v k m l x x' f f' hx hf ihx ihf =>
      have hheld := hx.keeps ended hlink Scope.starts_narrows hfacts start s' hk
      refine FollowedBy.bind (ihx hk hs) ?_ ?_ fun a s₁ s₁' hxa hs₁ =>
        ihf a (hheld _ s₁' hxa).2.1 hs₁
      · intro b s₁' b' s₂' hxb hfb
        rcases hheld b s₁' hxb with ⟨⟨a, rfl⟩, hm, _⟩
        exact ((hf a).keeps ended hlink Scope.starts_narrows hfacts start s₁' hm b' s₂' hfb).2.2
      · intro b s₁' b' s₂' hxb hfb hhalts
        rcases hheld b s₁' hxb with ⟨⟨a, rfl⟩, hm, _⟩
        rcases (hf a).barred ended hfacts hbarred hlink Scope.starts_narrows start hm hhalts.halted
          hfb with ⟨hsame, hhalted⟩
        exact ⟨hsame, hhalts.of_halted hhalted⟩
  | weaken _ hfrom hto ih =>
      intro b s₁' hread hstop
      rcases ih (hk.covers hfrom) hs b s₁' hread hstop with hfollowed | hhalts
      · exact .inl hfollowed
      · exact .inr (hhalts.of_halted (hhalts.halted.covers hto))
  | @position _ _ v k l f f' _ ih =>
      exact ih s.position s'.position hs.position hk hs
  | look c c' stays hc hmm hml hstay hread ihstay ihread =>
      exact Attempt.follows_look ended hfacts hc hstart hmm hml hstay hread
        (fun t t' h hn _ _ => ihstay t t' h hn)
        (fun t t' h ha _ _ => ihread t t' h ha _ (.refl _)) s s' hk hs
  | @advance k c c' kind hc hnext hend _ _ =>
      show FollowedBy d stop spans old id _ (Grammar.advance c s) (Grammar.advance c' s')
      exact hs.followedAdvance hc.1 ended hk (hk.next kind hnext) hend
  | @add k c c' first first' node hc hfirst _ _ =>
      show FollowedBy d stop spans old d.id _ (addSince c first node s)
        (addSince c' first' (node.map d.id) s')
      exact hs.followedAdd hc.1 hspans hfirst node
  | finish c c' ending node node' hc _ hfront hnode _ _ hmoved hunended hclosed ih =>
      exact Attempt.follows_endedBy hspans ended hfacts hc hstart hfront hnode hmoved
        hunended hclosed
        (fun _ _ => ih) s s' hk hs
  | @name k c c' what hc =>
      show FollowedBy d stop spans old d.id _ (newName c what s) (newName c' what s')
      exact hs.followedName hc.1 ended hk hspans what
  | fail => exact .error
  | @closing k c c' mark what hc _ _ =>
      show FollowedBy d stop spans old id _ (expectClosing c mark what s)
        (expectClosing c' mark what s')
      rw [expectClosing_eq_expect hc.1.recover, expectClosing_eq_expect hc.1.strict.recover]
      exact hs.followedExpect hc.1 ended hk mark what
  | closedByEnd v k l c c' atEnd a what fault hc =>
      have hfails : ¬ (atEnd && c'.options.recover) = true := by
        rw [hc.1.strict.recover, Bool.and_false]
        exact nofun
      simp only [if_neg hfails]
      exact .error
  | missing c c' hc _ ih =>
      have hstrict : ¬ c'.options.recover = true := by
        rw [hc.1.strict.recover]
        exact nofun
      have hstrict₁ : ¬ c.options.recover = true := by
        rw [hc.1.recover]
        exact nofun
      simp only [if_neg hstrict, if_neg hstrict₁]
      exact ih hk hs
  | @nested _ _ v k l c c' x x' hc _ ih =>
      show FollowedBy d stop spans old v _ (Grammar.nested c (fun deeper => x deeper reach) s)
        (Grammar.nested c' (fun deeper => x' deeper reach') s')
      rw [nested_eq, nested_eq]
      by_cases hdeep : nestingLimit ≤ c'.depth
      · rw [if_pos hdeep]
        exact .error
      · rw [if_neg hdeep, if_neg fun h => hdeep (Nat.le_trans h hc.1.depth)]
        exact ih hk hs
  | label c c' hc hnext hx hy hl ihx ihy =>
      exact Attempt.follows_labeledOr hspans ended hfacts hc hnext hx hy hl
        (fun first first' name h _ _ => ihx first first' name h) (fun _ _ => ihy _) s s' hk hs
  | reach goal first c c' agreed hc _ hfirst _ hagreed =>
      exact Attempt.follows_goal hfacts hreach hc hstart hfirst hagreed s s' hk hs

/-!
## The rules that are left
-/

variable {c c' : Context} (hc : Narrows d stop stream stream' c c') {s s' : State}
  (hbound : s'.position ≤ stream'.size) (hs : Continues d (.loose spans) old s s')

section

include hreach hc hbound hs

omit hspans ended hfacts hbarred in
theorem follows_branchRule (htight : s.position = stop -> TightAt d stop stream stream') :
    FollowedBy d stop spans old d.id
      (HaltsAt d stop stream' (c'.allowIn ≠ c.allowIn) (Facts.start.after .branch false))
      (branchRule reach c s) (branchRule reach' c' s') := by
  rw [branchRule_eq_statement hc.recover, branchRule_eq_statement hc.strict.recover]
  exact hreach .statement 0 c c' s s' hc hbound hs nofun htight

omit hspans ended hbound hs in
/-- The rest of an operation behind something that may have halted at an `in`. -/
theorem follows_operationTail {x x' : Reader NodeId} (floor : Nat) {first first' : Nat}
    (hfirst : first' = d.tokens + first) {k : Facts} {start : Nat}
    (hx : FollowedBy d stop spans old d.id
      (HaltsAt d stop stream' (c'.allowIn ≠ c.allowIn) .read) (x s)
      (x' s'))
    (hkeeps : Keeps d stream' start d.id .read s' (x' s'))
    (hk : k.agreed = false) :
    FollowedBy d stop spans old d.id (HaltsAt d stop stream' (c'.allowIn ≠ c.allowIn) k)
      ((x >>= fun left => reach (.binaryTail floor first left) c) s)
      ((x' >>= fun left => reach' (.binaryTail floor first' left) c') s') := by
  have htight (s₁ s₁' : State) (hk₁ : Facts.read.Holds d stream' start s₁')
      (hs₁ : Continues d (.loose spans) old s₁ s₁') (hat : s₁.position = stop) :
      TightAt d stop stream stream' := by
    have hother := hk₁.inside rfl
    rw [hs₁.position, hat] at hother
    exact hc.cut.next.resolve_right fun hopen => hother hopen.semicolon
  refine hx.bind ?_ ?_ fun left s₁ s₁' hxa hs₁ => ?_
  · intro b s₁' b' s₂' hxb hfb
    rcases hkeeps b s₁' hxb with ⟨⟨left, rfl⟩, hk₁, _⟩
    exact (hfacts (.binaryTail floor first left) first' c' s₁' hc.strict
      (Nat.le_trans hk₁.front hk₁.onward) hk₁.bounded hk₁.nodes b' s₂' hfb).2.2
  · intro b s₁' b' s₂' hxb hfb hhalts
    rcases hkeeps b s₁' hxb with ⟨⟨left, rfl⟩, hk₁, _⟩
    cases hhalts with
    | atIn hdiffer _ hbefore hin =>
        have hatIn : AtIn d stream' s₁' :=
          ⟨Nat.le_trans hk₁.front hk₁.onward, hk₁.bounded, hk₁.nodes, hin⟩
        exact ⟨hbarred (.binaryTail floor first left) first' c' s₁' b' s₂' hc.strict hatIn rfl
          (fun _ => hc.forbids hdiffer) hfb, .atIn hdiffer hk hbefore hin⟩
    | atStop hclosed _ _ => cases hclosed
  · have hk₁ := (hkeeps _ s₁' hxa).2.1
    intro b s₂' hread hstop
    rcases hreach (.binaryTail floor first left) first' c c' s₁ s₁' hc hk₁.bounded hs₁
        (fun _ => hfirst) (htight s₁ s₁' hk₁ hs₁) b s₂' hread hstop with hfollowed | hhalts
    · exact .inl hfollowed
    · cases hhalts with
      | atIn hdiffer _ hbefore hin => exact .inr (.atIn hdiffer hk hbefore hin)
      | atStop hclosed _ _ => cases hclosed

omit hspans ended in
theorem follows_binaryRule (floor : Nat)
    (htight : s.position = stop -> TightAt d stop stream stream') :
    FollowedBy d stop spans old d.id
      (HaltsAt d stop stream' (c'.allowIn ≠ c.allowIn) (Facts.start.after (.binary floor) false))
      (binaryRule reach floor c s) (binaryRule reach' floor c' s') := by
  unfold binaryRule
  rw [bind_position, bind_position]
  exact follows_operationTail hfacts hbarred hreach hc floor hs.position
    (hreach .unary 0 c c' s s' hc hbound hs nofun htight)
    (hfacts .unary 0 c' s' hc.strict hs.front_le hbound hs.nodes_le) rfl

theorem follows_operation (floor : Nat) {first first' : Nat} (hfirst : first' = d.tokens + first)
    (left : NodeId) {operator : BinaryOperator} {k : Facts} (hk : k.agreed = false)
    (hlt : s.position < stop)
    (hoperator : operatorAt? c' (c'.next s').kind = some operator) :
    FollowedBy d stop spans old d.id (HaltsAt d stop stream' (c'.allowIn ≠ c.allowIn) k)
      ((advance c >>= fun _ => reach (.binary operator.precedence) c >>= fun right =>
        addSince c first (.binary operator left right) >>= fun joined =>
          reach (.binaryTail floor first joined) c) s)
      ((advance c' >>= fun _ => reach' (.binary operator.precedence) c' >>= fun right =>
        addSince c' first' (.binary operator (d.id left) right) >>= fun joined =>
          reach' (.binaryTail floor first' joined) c') s') := by
  have hend := operatorAt?_ne_endOfText hoperator
  have hkind := hc.strict.kind_eq s'
  have hother : (c'.next s').kind ≠ .punctuator .semicolon := by
    intro hmark
    rw [hmark] at hoperator
    cases hoperator
  have hheld : Facts.start.Holds d stream' s'.position s' :=
    .here hs.front_le hbound hs.nodes_le rfl nofun nofun
  have hbehind := (hheld.behind ended hc.strict.stream hkind hend).1
  have hread := hbehind.covers (Facts.behind_covers_read hother)
  have hmoved := hs.moved_of_lt hc hlt hend ended
  have hright := Keeps.goal hfacts (.binary operator.precedence) 0 hc.strict hread false
  rw [bind_advance, bind_advance]
  simp only [← bind_assoc]
  refine follows_operationTail hfacts hbarred hreach hc floor hfirst ?_
    (hright.bind fun right s₂ h₂ =>
      Keeps.addSince h₂ c' first' (.binary operator (d.id left) (d.id right))) hk
  have hfollowed := hreach (.binary operator.precedence) 0 c c' _ _ hc hbehind.bounded
    hmoved nofun ?_
  · refine hfollowed.bind ?_ ?_ fun right s₂ s₂' _ h₂ =>
      h₂.followedAdd hc hspans hfirst (.binary operator left right)
    · intro b s₂' b' s₃' _ hadd
      rw [addSince_eq] at hadd
      cases hadd
      exact Nat.le_refl _
    · intro b s₂' b' s₃' _ hadd hhalts
      rw [addSince_eq] at hadd
      cases hadd
      exact ⟨rfl, hhalts⟩
  · -- An operator is no semicolon.
    intro hat
    have hbefore := hread.inside rfl
    rw [hmoved.position, hat] at hbefore
    exact hc.cut.next.resolve_right fun hopen => hbefore hopen.semicolon

theorem follows_binaryTailRule (floor : Nat) {first first' : Nat}
    (hfirst : first' = d.tokens + first) (left : NodeId)
    (htight : s.position = stop -> TightAt d stop stream stream') :
    FollowedBy d stop spans old d.id
      (HaltsAt d stop stream' (c'.allowIn ≠ c.allowIn)
        (Facts.start.after (.binaryTail floor first left) false))
      (binaryTailRule reach floor first left c s)
      (binaryTailRule reach' floor first' (d.id left) c' s') := by
  have hposition := hs.position
  unfold binaryTailRule
  rw [bind_peekKind, bind_peekKind]
  rcases Nat.lt_or_ge s.position stop with hlt | hge
  · rcases hc.operatorAt?_eq_or (c'.next s').kind with hsame | ⟨hdiffer, hin, hnone⟩
    · rw [← hs.kind_next_of_lt hc hlt, ← hsame]
      cases hoperator : operatorAt? c' (c'.next s').kind with
      | none => exact .ok hs
      | some operator =>
          dsimp only
          split
          next => exact .ok hs
          next =>
            exact follows_operation hspans ended hfacts hbarred hreach hc hbound hs
              floor hfirst left
              rfl hlt hoperator
    · rw [hnone]
      rintro b s₁' ⟨rfl⟩ hstop
      refine .inr (.atIn hdiffer rfl (by omega) ?_)
      rw [← hc.strict.stream]
      exact hin
  · -- At the stop the second reading has to end, and so does the first one.
    intro b s₁' hread hstop
    have hreturns : b = d.id left ∧ s₁' = s' ∧ (forall operator,
        operatorAt? c' (c'.next s').kind = some operator -> operator.precedence ≤ floor) := by
      cases hoperator : operatorAt? c' (c'.next s').kind with
      | none =>
          rw [hoperator] at hread
          cases hread
          exact ⟨rfl, rfl, nofun⟩
      | some operator =>
          rw [hoperator] at hread
          dsimp only at hread
          split at hread
          next hlow =>
            cases hread
            exact ⟨rfl, rfl, by rintro _ ⟨rfl⟩; exact hlow⟩
          next =>
            have hmoves := (keeps_operation hfacts hc.strict
              (.here hs.front_le hbound hs.nodes_le rfl nofun nofun) ended floor first'
              left hoperator b
              s₁' hread).2.1.moved rfl
            omega
    rcases hreturns with ⟨rfl, rfl, hlow⟩
    have hstops : s.position = stop := by omega
    have hlow₁ (operator : BinaryOperator)
        (hoperator : operatorAt? c (c.next s).kind = some operator) :
        operator.precedence ≤ floor := by
      have hend := operatorAt?_ne_endOfText hoperator
      have hnext : (c.next s).kind = (stream.get stop).kind := by
        rw [← hstops, ← hc.stream]
        rfl
      rcases htight hstops with hatEnd | ⟨hkind, _, _⟩
      · exact absurd (hnext.trans hatEnd) hend
      · have hkind' : (c'.next s₁').kind = (c.next s).kind := by
          rw [hs.next'_eq hc, hstops, hkind, hnext]
        apply hlow
        rw [hkind']
        rcases hc.operatorAt?_eq_or (c.next s).kind with hsame | ⟨hdiffer, hin, _⟩
        · exact hsame.trans hoperator
        · exact absurd (hc.next (hnext.symm.trans hin)) hdiffer
    refine .inl ⟨left, s, ?_, rfl, hs⟩
    cases hoperator : operatorAt? c (c.next s).kind with
    | none => rfl
    | some operator =>
        dsimp only
        rw [if_pos (hlow₁ operator hoperator)]
        rfl

theorem follows_applyRule (goal : Goal) (start' : Nat)
    (hstart : goal.isTail = true -> start' = d.tokens + goal.start)
    (htight : s.position = stop -> TightAt d stop stream stream') :
    FollowedBy d stop spans old (goal.placedResult d start')
      (HaltsAt d stop stream' (c'.allowIn ≠ c.allowIn) (Facts.start.after goal false))
      (applyRule reach goal c s) (applyRule reach' (goal.placed d start') c' s') := by
  cases hgoal : goal.isParallel with
  | true =>
      have hlink : (Scope.narrows d stop stream stream' (c'.allowIn ≠ c.allowIn)).link c c' :=
        ⟨hc, id⟩
      have hposition := hs.position
      exact (parallel_applyRule hlink (Scope.full_narrows d stop stream stream' _) goal start' hgoal
        hstart).follows hspans ended hfacts hbarred hreach s'.position
          (fun hsame => htight (by omega)) (.goal goal hs.front_le hbound hs.nodes_le) hs
  | false =>
      cases goal with
      | branch => exact follows_branchRule hreach hc hbound hs htight
      | binary floor => exact follows_binaryRule hfacts hbarred hreach hc hbound hs floor htight
      | binaryTail floor first left =>
          exact follows_binaryTailRule hspans ended hfacts hbarred hreach hc hbound hs floor
            (hstart rfl)
            left htight
      | _ => cases hgoal

end

end

/-- Readings of a part of the tokens follow the readings of all of them. -/
theorem follows_grammar {d : Offset} (stop : Nat) {stream stream' : TokenStream}
    {spans : Span → Span → Prop} (hspans : Spanning d stream stream' spans)
    (ended : stream'.Ended) (old : State) {budget budget' : Nat} (hle : budget' ≤ budget) :
    Strategy.Follows d stop stream stream' spans old (grammar budget) (grammar budget') := by
  induction budget' generalizing budget with
  | zero =>
      intro goal start' c c' s s' _ _ _ _ _
      exact .error
  | succ budget' ih =>
      cases budget with
      | zero => cases hle
      | succ budget =>
          intro goal start' c c' s s' hc hbound hs hstart htight
          exact follows_applyRule hspans ended (keepsFacts_grammar d ended budget')
            (barred_grammar d ended budget')
            (ih (Nat.le_of_succ_le_succ hle)) hc hbound hs goal start' hstart htight

end Grammar
end ScriptHints

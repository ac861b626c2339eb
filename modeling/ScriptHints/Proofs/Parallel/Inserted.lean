import ScriptHints.Proofs.Parallel.StatementEnds

/-!
# Semicolons that are inserted

Where a statement ends without a semicolon, one can be inserted. Both readings are the same up to
there, and behind the semicolon the second one goes on with the tokens that the first one has there.
The end of the statement is where the one reading becomes the other one.
-/

namespace ScriptHints
namespace Grammar

open Syntax Token

/-!
## Readings with and without the semicolon
-/

/-- The first stream has a semicolon in front of the token at the position `q` of the second one. -/
structure InsertedAt (q : Nat) (stream stream' : TokenStream) : Prop where
  pos : 0 < q
  le : q ≤ stream'.size
  size : stream.size = stream'.size + 1
  before (p : Nat) : p < q -> Facts.read.Alike (stream.get p) (stream'.get p)
  mark : (stream.get q).kind = .punctuator .semicolon
  behind (p : Nat) : q ≤ p -> Facts.read.Alike (stream.get (p + 1)) (stream'.get p)
  last : (stream'.get (q - 1)).kind ≠ .punctuator .semicolon

structure Amends (q : Nat) (stream stream' : TokenStream) (c c' : Context) : Prop where
  inserted : InsertedAt q stream stream'
  stream : c.stream = stream
  recover : c.options.recover = false
  strict : c'.Strict stream'
  allowIn : c'.allowIn = c.allowIn
  depth : c'.depth = c.depth

namespace Amends

variable {q : Nat} {stream stream' : TokenStream} {c c' : Context}
  (h : Amends q stream stream' c c')
include h

theorem allowingIn : Amends q stream stream' c.allowingIn c'.allowingIn :=
  { h with
    strict := ⟨h.strict.stream, h.strict.recover⟩
    allowIn := rfl }

theorem forbiddingIn : Amends q stream stream' c.forbiddingIn c'.forbiddingIn :=
  { h with
    strict := ⟨h.strict.stream, h.strict.recover⟩
    allowIn := rfl }

theorem deeper : Amends q stream stream' c.deeper c'.deeper :=
  { h with
    strict := ⟨h.strict.stream, h.strict.recover⟩
    depth := congrArg (· + 1) h.depth }

theorem kind_next_of_eq {s : State} (hat : s.position = q) :
    (c.next s).kind = .punctuator .semicolon := by
  unfold Context.next
  rw [h.stream, hat]
  exact h.inserted.mark

end Amends

def Scope.amends (q : Nat) (stream stream' : TokenStream) : Scope where
  link := Amends q stream stream'
  allowingIn := Amends.allowingIn
  forbiddingIn := Amends.forbiddingIn
  deeper := Amends.deeper
  starts _ _ := True
  adds _ := True
  reaches goal := goal.isOperation = false
  noOperation _ h := h

theorem Scope.full_amends (q : Nat) (stream stream' : TokenStream) :
    (Scope.amends q stream stream').Full where
  adds _ := trivial
  reaches _ h := h

/-- Both readings are in front of the semicolon, and no statement ends there yet. -/
structure BeforeMark (q : Nat) (stream' : TokenStream) (s s' : State) : Prop where
  position : s'.position = s.position
  le : s.position ≤ q
  none : StatementsAre (EndsElsewhere (stream'.get (q - 1))) s'.tree

/-- The first reading has read the semicolon, where the second one has ended a statement without
it. Right behind it the readings know that something has ended there, unless they begin there. -/
structure BehindMark (q : Nat) (stream' : TokenStream) (begun : Prop) (start : Nat) (k : Facts)
    (s s' : State) : Prop where
  position : s.position = s'.position + 1
  le : q ≤ s'.position
  grants : Grants (stream'.get q)
  noSlash : q < s'.position -> (stream'.get q).kind.isSlash = false
  inside : s'.position = q -> k.inside = false
  ended : s'.position = q -> begun ∨ start < q ∧ k.unended = false

/-- The readings have built the same tree, on the same side of the semicolon. -/
structure Amended (q : Nat) (stream' : TokenStream) (begun : Prop) (start : Nat) (k : Facts)
    (s s' : State) : Prop where
  tree : s.tree.Displaced ⟨0, 0⟩ looselike.spans State.start.tree s'.tree
  side : BeforeMark q stream' s s' ∨ BehindMark q stream' begun start k s s'

/-- The second reading has passed the semicolon, and no statement ends there. -/
structure Missed (q : Nat) (stream' : TokenStream) (l : Facts) (s' : State) : Prop where
  beyond : l.Beyond q False s'
  none : StatementsAre (EndsElsewhere (stream'.get (q - 1))) s'.tree

/-- A reading without the semicolon that succeeds is one with the semicolon, or no statement
ends there. -/
def AmendedBy (q : Nat) (stream' : TokenStream) (begun : Prop) (start : Nat) (l : Facts)
    {α β : Type} (v : α → β) (r : EStateM.Result SyntaxError State α)
    (r' : EStateM.Result SyntaxError State β) : Prop :=
  forall b s', r' = .ok b s' ->
    (exists a s, r = .ok a s ∧ b = v a ∧ Amended q stream' begun start l s s') ∨
      Missed q stream' l s'

section

variable {q : Nat} {stream stream' : TokenStream} {begun : Prop} {start : Nat} {k l : Facts}
  {s s' : State}

theorem BehindMark.covers (h : BehindMark q stream' begun start k s s') (hl : k.Covers l) :
    BehindMark q stream' begun start l s s' :=
  { h with
    inside := fun hat => Bool.eq_false_iff.mpr fun hsame =>
      Bool.eq_false_iff.mp (h.inside hat) (hl.inside hsame)
    ended := fun hat => (h.ended hat).imp_right fun ⟨hlt, hended⟩ =>
      ⟨hlt, Bool.eq_false_iff.mpr fun hsame => Bool.eq_false_iff.mp hended (hl.unended hsame)⟩ }

theorem BehindMark.restart (h : BehindMark q stream' begun start k s s')
    (hl : l.inside = true -> k.inside = true) :
    BehindMark q stream' (s.position = s'.position + 1) s'.position l s s' :=
  { h with
    inside := fun hat => Bool.eq_false_iff.mpr fun hsame =>
      Bool.eq_false_iff.mp (h.inside hat) (hl hsame)
    ended := fun _ => .inl h.position }

theorem BehindMark.of_lt (h : BehindMark q stream' begun start k s s') (hlt : q < s'.position)
    (begun₁ : Prop) (start₁ : Nat) (l : Facts) : BehindMark q stream' begun₁ start₁ l s s' :=
  { h with
    inside := fun hat => absurd hat (Nat.ne_of_gt hlt)
    ended := fun hat => absurd hat (Nat.ne_of_gt hlt) }

namespace Amended

variable (h : Amended q stream' begun start k s s')
include h

theorem covers (hl : k.Covers l) : Amended q stream' begun start l s s' :=
  ⟨h.tree, h.side.imp_right fun hbehind => hbehind.covers hl⟩

theorem restart (hl : l.inside = true -> k.inside = true) :
    Amended q stream' (s.position = s'.position + 1) s'.position l s s' :=
  ⟨h.tree, h.side.imp_right fun hbehind => hbehind.restart hl⟩

/-- Where the semicolon is the next token of the first reading, it is not yet behind it. -/
theorem before_of_eq (hat : s.position = q) : BeforeMark q stream' s s' := by
  refine h.side.resolve_right fun hbehind => ?_
  have hposition := hbehind.position
  have hle := hbehind.le
  omega

variable {c c' : Context} (hc : Amends q stream stream' c c')
include hc

/-- Up to the semicolon, and behind it, the same tokens come next in both readings. -/
theorem alike_get (n : Nat) (hstep : s.position ≤ q -> s.position + n < q) :
    Facts.read.Alike (c.stream.get (s.position + n)) (c'.stream.get (s'.position + n)) := by
  rw [hc.stream, hc.strict.stream]
  rcases h.side with hbefore | hbehind
  · rw [hbefore.position]
    exact hc.inserted.before _ (hstep hbefore.le)
  · rw [hbehind.position, Nat.add_right_comm]
    exact hc.inserted.behind _ (Nat.le_add_right_of_le hbehind.le)

theorem alike_next (hstep : s.position ≠ q) : Facts.read.Alike (c.next s) (c'.next s') :=
  h.alike_get hc 0 fun hle => Nat.lt_of_le_of_ne hle hstep

theorem moved_eq (ended : stream'.Ended) (hend : (c'.next s').kind ≠ .endOfText) :
    s.moved c = { s with position := s.position + 1 } ∧
      s'.moved c' = { s' with position := s'.position + 1 } := by
  have hsize := hc.inserted.size
  have hlt : s'.position < stream'.size := by
    apply Nat.lt_of_not_le
    intro hle
    apply hend
    rw [hc.strict.next_eq]
    exact (ended.kind_get_eq_iff _).mpr hle
  have hlt₁ : s.position < stream.size := by
    rcases h.side with hbefore | hbehind
    · have hposition := hbefore.position
      omega
    · have hposition := hbehind.position
      omega
  unfold State.moved
  rw [if_pos (by rw [hc.stream]; exact hlt₁), if_pos (by rw [hc.strict.stream]; exact hlt)]
  exact ⟨rfl, rfl⟩

/-- Both readings move on together, and behind the semicolon nothing is like it was. -/
theorem moved (ended : stream'.Ended) (hstep : s.position ≠ q) (l : Facts)
    (hend : (c'.next s').kind ≠ .endOfText)
    (hslash : (c'.next s').kind.isSlash = true -> k.inside = true) :
    Amended q stream' begun start l (s.moved c) (s'.moved c') := by
  rcases h.moved_eq hc ended hend with ⟨hmoved, hmoved'⟩
  rw [hmoved, hmoved']
  refine ⟨h.tree, ?_⟩
  rcases h.side with hbefore | hbehind
  · exact .inl ⟨congrArg (· + 1) hbefore.position, Nat.lt_of_le_of_ne hbefore.le hstep,
      hbefore.none⟩
  · have hpassed := hbehind.le
    refine .inr ⟨congrArg (· + 1) hbehind.position, Nat.le_succ_of_le hpassed, hbehind.grants,
      fun _ => ?_,
      fun hat => ?_, fun hat => ?_⟩
    · rcases Nat.lt_or_eq_of_le hpassed with hlt' | hat
      · exact hbehind.noSlash hlt'
      · rw [Bool.eq_false_iff]
        intro hmark
        have hinside := hbehind.inside hat.symm
        rw [hslash] at hinside
        · cases hinside
        · rw [hc.strict.next_eq, ← hat]
          exact hmark
    · have hat : s'.position + 1 = q := hat
      omega
    · have hat : s'.position + 1 = q := hat
      omega

omit hc in
theorem added (c c' : Context) (first first' : Nat) (node : Node)
    (hplain : node.takesSemicolon = false) :
    Amended q stream' begun start k (s.added c first node)
      (s'.added c' first' (node.map (Offset.id ⟨0, 0⟩))) := by
  refine ⟨h.tree.add node trivial, ?_⟩
  rcases h.side with hbefore | hbehind
  · exact .inl ⟨hbefore.position, hbefore.le,
      hbefore.none.added c' first' ((takesSemicolon_map _ node).trans hplain)⟩
  · exact .inr { hbehind with position := hbehind.position }

theorem labeled (ended : stream'.Ended) (hstep : s.position ≤ q -> s.position + 1 < q)
    (hkind : (c'.next s').kind = .identifier)
    (hcolon : (c'.stream.get (s'.position + 1)).kind = .punctuator .colon) :
    Amended q stream' begun start .read
      (((s.moved c).added c s.position (.identifier (c.next s).lexeme)).moved c)
      (((s'.moved c').added c' s'.position (.identifier (c'.next s').lexeme)).moved c') := by
  have hend : (c'.next s').kind ≠ .endOfText := by
    rw [hkind]
    exact nofun
  have hother : s.position ≠ q := by
    intro hat
    have hlt := hstep (Nat.le_of_eq hat)
    omega
  have hname :=
    (h.moved hc ended hother .read hend (by rw [hkind]; exact nofun)).added c c' s.position
    s'.position (.identifier (c.next s).lexeme) rfl
  rcases h.moved_eq hc ended hend with ⟨hposition, hposition'⟩
  have hnext : (c'.next ((s'.moved c').added c' s'.position
      ((Node.identifier (c.next s).lexeme).map (Offset.id ⟨0, 0⟩)))).kind = .punctuator .colon := by
    show (c'.stream.get (s'.moved c').position).kind = _
    rw [hposition']
    exact hcolon
  rw [(h.alike_next hc hother).lexeme]
  refine hname.moved hc ended ?_ .read (by rw [hnext]; exact nofun) (by rw [hnext]; exact nofun)
  show (s.moved c).position ≠ q
  rw [hposition]
  intro hat
  have hat : s.position + 1 = q := hat
  have hlt := hstep (by omega)
  omega

end Amended

namespace AmendedBy

variable {α β γ δ : Type} {u : α → β} {v : γ → δ}

theorem ok {a : α} (h : Amended q stream' begun start l s s') :
    AmendedBy q stream' begun start l u (.ok a s) (.ok (u a) s') := by
  rintro _ _ ⟨rfl⟩
  exact .inl ⟨a, s, rfl, rfl, h⟩

theorem error {r : EStateM.Result SyntaxError State α} {e : SyntaxError} :
    AmendedBy q stream' begun start l u r (.error e s') := by
  intro b s₁ heq
  cases heq

theorem of_missed {r : EStateM.Result SyntaxError State α}
    {r' : EStateM.Result SyntaxError State β}
    (h : forall b s', r' = .ok b s' -> Missed q stream' l s') :
    AmendedBy q stream' begun start l u r r' :=
  fun b s' heq => .inr (h b s' heq)

theorem covers {r : EStateM.Result SyntaxError State α} {r' : EStateM.Result SyntaxError State β}
    (h : AmendedBy q stream' begun start k u r r') (hl : k.Covers l) :
    AmendedBy q stream' begun start l u r r' := by
  intro b s₁' heq
  rcases h b s₁' heq with ⟨a, s₁, hr, hvalue, hs₁⟩ | hmissed
  · exact .inl ⟨a, s₁, hr, hvalue, hs₁.covers hl⟩
  · exact .inr ⟨hmissed.beyond.covers hl, hmissed.none⟩

/-- Where the semicolon has been missed, it is missed by what follows. -/
theorem bind {x : Reader α} {x' : Reader β} {f : α → Reader γ} {f' : β → Reader δ}
    (hx : AmendedBy q stream' begun start k u (x s) (x' s'))
    (hmissed : forall b s₁' b' s₂', x' s' = .ok b s₁' -> Missed q stream' k s₁' ->
      f' b s₁' = .ok b' s₂' -> Missed q stream' l s₂')
    (hf : forall a s₁ s₁', x' s' = .ok (u a) s₁' -> Amended q stream' begun start k s₁ s₁' ->
      AmendedBy q stream' begun start l v (f a s₁) (f' (u a) s₁')) :
    AmendedBy q stream' begun start l v ((x >>= f) s) ((x' >>= f') s') := by
  intro b' s₂' hread
  rcases bind_ok_iff.mp hread with ⟨b, s₁', hxb, hfb⟩
  rcases hx b s₁' hxb with ⟨a, s₁, hxa, rfl, hs₁⟩ | hmissed₁
  · rcases hf a s₁ s₁' hxb hs₁ b' s₂' hfb with ⟨a', s₂, hfa, hvalue, hs₂⟩ | hmissed₂
    · exact .inl ⟨a', s₂, bind_ok_iff.mpr ⟨a, s₁, hxa, hfa⟩, hvalue, hs₂⟩
    · exact .inr hmissed₂
  · exact .inr (hmissed b s₁' b' s₂' hxb hmissed₁ hfb)

end AmendedBy

end

/-- Every goal that is reached is amended. Right behind the semicolon no operation goes on. -/
def Strategy.Amends (q : Nat) (stream stream' : TokenStream) (reach reach' : Strategy) : Prop :=
  forall (goal : Goal) (start' : Nat) (c c' : Context) (s s' : State),
    Grammar.Amends q stream stream' c c' -> s'.position ≤ stream'.size ->
      Amended q stream' (s.position = s'.position + 1) s'.position .start s s' ->
        (goal.isOperation = true -> s.position = s'.position + 1 -> s'.position ≠ q) ->
          AmendedBy q stream' (s.position = s'.position + 1) s'.position
            (Facts.start.after goal false) (goal.placedResult ⟨0, 0⟩ start') (reach goal c s)
            (reach' (goal.placed ⟨0, 0⟩ start') c' s')

theorem Scope.strict_of_amends {q : Nat} {stream stream' : TokenStream} {c c' : Context}
    (h : (Scope.amends q stream stream').link c c') : c'.Strict stream' :=
  h.strict

theorem Scope.starts_amends {q : Nat} {stream stream' : TokenStream} (p : Nat) (_ : 0 ≤ p) :
    exists first, (Scope.amends q stream stream').starts first p :=
  ⟨0, trivial⟩

/-- The second attempt is amended by the first one, wherever both have begun. -/
def Attempt.Amends (q : Nat) (stream' : TokenStream) (reach reach' : Strategy) {α β : Type}
    (u : α → β) (k l : Facts) (x : Attempt α) (x' : Attempt β) : Prop :=
  forall (begun : Prop) (start : Nat) (s s' : State), k.Holds ⟨0, 0⟩ stream' start s' ->
    Amended q stream' begun start k s s' ->
      AmendedBy q stream' begun start l u (x reach s) (x' reach' s')

section

variable {q : Nat} {stream stream' : TokenStream} (hinserted : InsertedAt q stream stream')
  (ended : stream'.Ended) (placed : stream'.Placed) {reach reach' : Strategy}
  (hfacts : reach'.KeepsFacts ⟨0, 0⟩ stream')
  (hstatements : reach'.KeepsStatements q stream' (EndsElsewhere (stream'.get (q - 1))))
  (hreach : Strategy.Amends q stream stream' reach reach')

section

include hinserted ended placed hfacts hstatements

theorem Parallel.missed {α β : Type} {u : α → β} {k m : Facts} {x : Attempt α} {x' : Attempt β}
    (h : Parallel ⟨0, 0⟩ (Scope.amends q stream stream') u k x x' m) (hmoved : m.moved = true)
    {s' s₁' : State} (hk : k.Holds ⟨0, 0⟩ stream' s'.position s') (hpassed : q ≤ s'.position)
    (hnone : StatementsAre (EndsElsewhere (stream'.get (q - 1))) s'.tree) {b : β}
    (hread : x' reach' s' = .ok b s₁') (l : Facts) : Missed q stream' l s₁' := by
  have hlink (c c' : Context) (h : (Scope.amends q stream stream').link c c') :
      c'.Strict stream' := h.strict
  have hmoves := (h.keeps ended hlink (fun _ _ => ⟨0, trivial⟩) hfacts s'.position s' hk b s₁'
    hread).2.1.moved hmoved
  have hbeyond : k.Beyond q (q ≤ s'.position) s' := ⟨hpassed, fun _ => .inl hpassed⟩
  refine ⟨.of_lt (by omega), ?_⟩
  exact (h.keepsStatements ended (fineFrom_endsElsewhere placed hinserted.pos hinserted.le)
    hfacts hstatements hlink
    (fun _ _ => ⟨0, trivial⟩) hk id hbeyond hread hnone).2

omit hinserted placed hfacts hstatements in
/-- Where the second reading ends a statement, the first one ends it in the same way or with the
semicolon, or the second one goes further than the semicolon or need not end there. -/
theorem Amended.ending {c c' : Context} (hc : Amends q stream stream' c c') {s s' : State}
    {m : Facts} {begun : Prop} {start : Nat} (hs : Amended q stream' begun start m s s')
    (hm : m.Holds ⟨0, 0⟩ stream' start s') (hmoved : m.moved = true) (hunended : m.unended = true)
    (hbegun : begun -> q ≤ start) (ending : Ending) {b : Unit} {s₁' : State}
    (hread : ending.read c' s' = .ok b s₁') :
    (exists s₁, ending.read c s = .ok () s₁ ∧ s₁.position ≠ q ∧
      Amended q stream' False start .ended s₁ s₁') ∨
    StatementsAre (EndsElsewhere (stream'.get (q - 1))) s'.tree ∧
      (q < s₁'.position ∨ ending = .optional ∧ s₁'.position = q) := by
  have hmoves := hm.moved hmoved
  have hnext := hc.strict.next_eq s'
  by_cases hstep : s.position = q
  · -- The first reading sees the semicolon.
    have hbefore := hs.before_of_eq hstep
    have hat : s'.position = q := hbefore.position.trans hstep
    by_cases hmark : (c'.next s').kind = .punctuator .semicolon
    · rw [ending.read_of_semicolon hmark] at hread
      cases hread
      refine .inr ⟨hbefore.none, .inl ?_⟩
      rw [hnext] at hmark
      show q < (s'.moved c').position
      rw [(hm.behind ended hc.strict.stream hmark nofun).2]
      omega
    · rcases (ending.read_ok_iff hmark).mp hread with ⟨hallows, rfl⟩
      cases ending with
      | optional => exact .inr ⟨hbefore.none, .inr ⟨rfl, hat⟩⟩
      | required what =>
          rw [hnext, hat] at hallows
          have hsize := hc.inserted.size
          have hle := hc.inserted.le
          refine .inl ⟨s.moved c, (Ending.required what).read_of_semicolon
            (hc.kind_next_of_eq hstep),
            ?_⟩
          unfold State.moved
          rw [if_pos (by rw [hc.stream]; omega)]
          have hbehind : BehindMark q stream' False start .ended
              { s with position := s.position + 1 }
              s₁' :=
            ⟨by rw [hbefore.position], by omega, hallows, fun hlt => by omega, fun _ => rfl,
              fun _ => .inr ⟨by omega, rfl⟩⟩
          exact ⟨by show s.position + 1 ≠ q; omega, hs.tree, .inr hbehind⟩
  · -- Behind the semicolon something has been read.
    have hside : BeforeMark q stream' s s' ∨ BehindMark q stream' False start .ended s s' := by
      refine hs.side.imp_right fun hbehind => ?_
      have hle := hbehind.le
      refine hbehind.of_lt (Nat.lt_of_le_of_ne hle fun hat => ?_) False start .ended
      rcases hbehind.ended hat.symm with hbegun' | ⟨_, hended⟩
      · have hstart := hbegun hbegun'
        omega
      · rw [hunended] at hended
        cases hended
    have halike := hs.alike_next hc hstep
    have hsame : Amended q stream' False start .ended s s' := ⟨hs.tree, hside⟩
    by_cases hmark : (c'.next s').kind = .punctuator .semicolon
    · rw [ending.read_of_semicolon hmark] at hread
      cases hread
      have hmoved₁ := hsame.moved hc ended hstep .ended (by rw [hmark]; exact nofun)
        (by rw [hmark]; exact nofun)
      refine .inl ⟨s.moved c, ending.read_of_semicolon (halike.kind.symm.trans hmark),
        fun hat => ?_,
        hmoved₁⟩
      -- The token before the inserted semicolon is none.
      have hbefore := (hmoved₁.before_of_eq hat).position
      rw [hnext] at hmark
      have hbehind := (hm.behind ended hc.strict.stream hmark nofun).2
      have hlast := hc.inserted.last
      rw [show q - 1 = s'.position by omega] at hlast
      exact hlast hmark
    · rcases (ending.read_ok_iff hmark).mp hread with ⟨hallows, rfl⟩
      have hother : (c.next s).kind ≠ .punctuator .semicolon := by
        rw [← halike.kind]
        exact hmark
      exact .inl
        ⟨s, (ending.read_ok_iff hother).mpr ⟨(halike.allows_iff rfl ending).mp hallows, rfl⟩,
        hstep, hsame⟩

omit hfacts hstatements in
/-- A statement that the first reading ends with the semicolon is ended without it by the second
one. All others end in both readings in the same way, or the semicolon has been missed. -/
theorem AmendedBy.endedBy {c c' : Context} (hc : Amends q stream stream' c c') {s s' : State}
    {α β : Type} {u : α → β} {m : Facts} {front : Reader α} {front' : Reader β} (ending : Ending)
    {node : α → Node} {node' : β → Node} {begun begun' : Prop} {start : Nat}
    (hnode : forall a, node' (u a) = (node a).map (Offset.id ⟨0, 0⟩))
    (hplain : ending = .optional -> forall a, (node a).takesSemicolon = false)
    (hmoved : m.moved = true) (hunended : m.unended = true) (hclosed : m.closed = true)
    (hstart : start ≤ s'.position) (hbegun : begun -> q ≤ s'.position)
    (hkeeps : Keeps ⟨0, 0⟩ stream' s'.position u m s' (front' s'))
    (hfront : AmendedBy q stream' begun s'.position m u (front s) (front' s')) :
    AmendedBy q stream' begun' start .ended (Offset.id ⟨0, 0⟩) (endedBy c ending node front s)
      (endedBy c' ending node' front' s') := by
  unfold Grammar.endedBy
  rw [bind_position, bind_position]
  intro b s₃' hread
  rcases bind_ok_iff.mp hread with ⟨parts', s₁', hparts', hends'⟩
  rcases bind_ok_iff.mp hends' with ⟨_, s₂', hending', hadd'⟩
  rw [addSince_eq] at hadd'
  cases hadd'
  rcases hkeeps parts' s₁' hparts' with ⟨⟨parts, hvalue⟩, hm, _⟩
  have hmoves := hm.moved hmoved
  rcases Keeps.ending ended hc.strict hm hmoved ending _ s₂' hending' with ⟨_, hm₂, honward⟩
  have hbound := hm₂.bounded
  have htree := ending.tree_of_read_ok hending'
  -- Only a statement that ends before the semicolon ends with the token before it.
  have hnone (h : StatementsAre (EndsElsewhere (stream'.get (q - 1))) s₂'.tree)
      (hother : s₂'.position = q -> (node' parts').takesSemicolon = false) :
      StatementsAre (EndsElsewhere (stream'.get (q - 1)))
      (s₂'.added c' s'.position (node' parts')).tree := by
    refine h.add fun htakes => ?_
    have hne : s₂'.position ≠ q := by
      intro hat
      rw [hother hat] at htakes
      cases htakes
    have hpos := hinserted.pos
    have hle := hinserted.le
    have hstream := hc.strict.stream
    subst hstream
    exact finish_spanOf_ne placed (by omega) hbound (by omega) (by omega)
  rcases hfront _ s₁' hparts' with ⟨parts, s₁, hparts, rfl, hs₁⟩ | hmissed
  · rcases hs₁.ending ended hc hm hmoved hunended hbegun ending hending' with
      ⟨s₂, hending, hne, hs₂⟩ | ⟨hnone₁, hpassed⟩
    · refine .inl ⟨s₂.tree.nextId, s₂.added c s.position (node parts), ?_, hs₂.tree.nextId, ?_, ?_⟩
      · exact bind_ok_iff.mpr ⟨parts, s₁, hparts, bind_ok_iff.mpr ⟨(), s₂, hending,
          addSince_eq _ _ _ _⟩⟩
      · rw [hnode]
        exact hs₂.tree.add (node parts) trivial
      · rcases hs₂.side with hbefore | hbehind
        · exact .inl ⟨hbefore.position, hbefore.le, hnone hbefore.none fun hat =>
            absurd (hbefore.position.symm.trans hat) hne⟩
        · refine .inr
            { hbehind with position := hbehind.position, ended := fun hat => .inr ⟨?_, rfl⟩ }
          rcases hbehind.ended hat with hfalse | ⟨hlt, _⟩
          · exact hfalse.elim
          · omega
    · rw [← htree] at hnone₁
      rcases hpassed with hlt | ⟨hoptional, hat⟩
      · exact .inr ⟨.of_lt hlt, hnone hnone₁ fun hat => absurd hat (Nat.ne_of_gt hlt)⟩
      · refine .inr ⟨⟨Nat.le_of_eq hat.symm, fun _ => .inr (.inl rfl)⟩, hnone hnone₁ fun _ => ?_⟩
        rw [hnode, takesSemicolon_map]
        exact hplain hoptional parts
  · have hlt := hmissed.beyond.lt False.elim hunended hclosed
    have hnone₁ := hmissed.none
    rw [← htree] at hnone₁
    exact .inr ⟨.of_lt (by show q < s₂'.position; omega), hnone hnone₁ fun hat => by omega⟩

omit hinserted ended placed hfacts hstatements in
/-- What is known behind a goal that began here is known where the reading began before it. -/
theorem AmendedBy.after {α β : Type} {v : α → β} {r : EStateM.Result SyntaxError State α}
    {r' : EStateM.Result SyntaxError State β} {s s' : State} {k : Facts} {begun : Prop}
    {start : Nat}
    (goal : Goal) (agreed : Bool) (hs : Amended q stream' begun start k s s')
    (hstart : start ≤ s'.position)
    (hkeeps : Keeps ⟨0, 0⟩ stream' s'.position v (Facts.start.after goal false) s' r')
    (h : AmendedBy q stream' (s.position = s'.position + 1) s'.position
      (Facts.start.after goal false) v r r') :
    AmendedBy q stream' begun start (k.after goal agreed) v r r' := by
  intro b s₁' hread
  rcases hkeeps b s₁' hread with ⟨_, hgoal, honward⟩
  rcases h b s₁' hread with ⟨a, s₁, hr, hvalue, hs₁⟩ | hmissed
  · refine .inl ⟨a, s₁, hr, hvalue, hs₁.tree, hs₁.side.imp_right fun hbehind => ?_⟩
    have hside (hat : s₁'.position = q) : (k.after goal agreed).inside = false ∧
        (begun ∨ start < q ∧ (k.after goal agreed).unended = false) := by
      rcases hbehind.ended hat with hbegun | ⟨hlt, hended⟩
      · -- Nothing has been read since the semicolon.
        have hbehind₀ : BehindMark q stream' begun start k s s' := by
          refine hs.side.resolve_left fun hbefore => ?_
          have hposition := hbefore.position
          omega
        have hat₀ : s'.position = q := by
          have hle := hbehind₀.le
          omega
        have hempty : goal.mayBeEmpty = true := by
          cases hgoal' : goal.mayBeEmpty with
          | true => rfl
          | false =>
              have hmoves := hgoal.moved (by simp [Facts.after, hgoal'])
              omega
        refine ⟨by simp [Facts.after, hempty, hbehind₀.inside hat₀], ?_⟩
        refine (hbehind₀.ended hat₀).imp_right fun hbefore => ⟨hbefore.1, ?_⟩
        simp [Facts.after, hempty, hbefore.2]
      · have hopen : goal.unended = false := by
          simpa [Facts.after, Facts.start] using hended
        exact ⟨by simp [Facts.after, hopen], .inr ⟨by omega, by simp [Facts.after, hopen]⟩⟩
    exact { hbehind with inside := fun hat => (hside hat).1, ended := fun hat => (hside hat).2 }
  · refine .inr ⟨⟨hmissed.beyond.passed, fun hat => ?_⟩, hmissed.none⟩
    rcases hmissed.beyond.stuck hat with hfalse | hended | hopen
    · exact .inl hfalse
    · have hgoal : goal.unended = false := by
        simpa [Facts.after, Facts.start] using hended
      exact .inr (.inl (by simp [Facts.after, hgoal]))
    · have hgoal : goal.isOpen = true := by
        simpa [Facts.after, Facts.start] using hopen
      exact .inr (.inr (by simp [Facts.after, hgoal]))

section

variable {c c' : Context} (hc : Amends q stream stream' c c')
include hc

theorem amended_look {α β : Type} {v : α → β} {k l m : Facts} {f : Token → Attempt α}
    {f' : Token → Attempt β} {stays : Token → Bool} (hmm : m.moved = true) (hml : m.Covers l)
    (hstay : forall t t', stays t' = true -> k.Near t t' ->
      Parallel ⟨0, 0⟩ (Scope.amends q stream stream') v k.unseen (f t) (f' t') l)
    (hread : forall t t', stays t' = false -> k.Alike t t' -> forall k' : Facts, k.Leaves k' ->
      Parallel ⟨0, 0⟩ (Scope.amends q stream stream') v (k'.seeing t.kind) (f t) (f' t') m)
    (ihstay : forall t t', stays t' = true -> k.Near t t' ->
      Attempt.Amends q stream' reach reach' v k.unseen l (f t) (f' t'))
    (ihread : forall t t', stays t' = false -> k.Alike t t' ->
      Attempt.Amends q stream' reach reach' v (k.seeing t.kind) m (f t) (f' t')) :
    Attempt.Amends q stream' reach reach' v k l (fun reach => peek c >>= fun t => f t reach)
      (fun reach => peek c' >>= fun t => f' t reach) := by
  intro begun start s s' hk hs
  have hnext := hc.strict.next_eq s'
  intro b s₁' heq
  have heq : f' (c'.next s') reach' s' = .ok b s₁' := heq
  by_cases hstep : s.position = q
  · have hbefore := hs.before_of_eq hstep
    have hmark := hc.kind_next_of_eq hstep
    have hat : s'.position = q := hbefore.position.trans hstep
    cases hstays : stays (c'.next s') with
    | true =>
        cases hclosed : k.closed with
        | true =>
            exact ihstay _ _ hstays (.inserted hclosed hmark) begun start s s' hk.unseen
              (hs.covers k.covers_unseen) b s₁' heq
        | false =>
            refine .inr ?_
            have hbeyond : k.unseen.Beyond q False s' :=
              ⟨Nat.le_of_eq hat.symm, fun _ => .inr (.inr hclosed)⟩
            rcases (hstay _ _ hstays (.refl _ _)).keepsStatements ended
              (fineFrom_endsElsewhere placed hinserted.pos hinserted.le) hfacts hstatements
              (fun _ _ => Scope.strict_of_amends) Scope.starts_amends hk.unseen
              False.elim hbeyond heq
              hbefore.none with ⟨hbeyond, hnone⟩
            exact ⟨hbeyond, hnone⟩
    | false =>
        refine .inr ?_
        refine (hread _ _ hstays (.refl _ _)
          { Facts.start with agreed := k.agreed, inside := k.inside } ⟨rfl, rfl⟩).missed
          hinserted ended
          placed hfacts hstatements hmm ?_ (Nat.le_of_eq hat.symm) hbefore.none heq l
        exact .here (Nat.zero_le _) hk.bounded (Nat.zero_le _) rfl hk.inside
          (by rintro _ ⟨rfl⟩; rw [hnext])
  · have halike := hs.alike_next hc hstep
    have halike : k.Alike (c.next s) (c'.next s') :=
      ⟨halike.kind, halike.lexeme, fun _ => halike.newlineBefore rfl⟩
    cases hstays : stays (c'.next s') with
    | true =>
        exact ihstay _ _ hstays (.alike halike) begun start s s' hk.unseen
          (hs.covers k.covers_unseen) b s₁' heq
    | false =>
        have hseeing : (k.seeing (c.next s).kind).Holds ⟨0, 0⟩ stream' start s' := by
          rw [← halike.kind, hnext]
          exact hk.seeing
        have hs₁ : Amended q stream' begun start (k.seeing (c.next s).kind) s s' :=
          ⟨hs.tree, hs.side.imp_right fun hbehind => { hbehind with }⟩
        exact (ihread _ _ hstays halike begun start s s' hseeing hs₁).covers hml b s₁' heq

omit hinserted placed hfacts hstatements in
theorem amended_newName {begun : Prop} {start : Nat} {k : Facts} {s s' : State}
    (hk : k.Holds ⟨0, 0⟩ stream' start s') (hs : Amended q stream' begun start k s s')
    (what : Expectation) :
    AmendedBy q stream' begun start .read (Offset.id ⟨0, 0⟩) (newName c what s)
    (newName c' what s') := by
  intro b s₁' heq
  rw [newName_eq] at heq
  split at heq
  next hkind =>
    cases heq
    by_cases hstep : s.position = q
    · have hbefore := hs.before_of_eq hstep
      have hnext := (hc.strict.kind_eq s').trans hkind
      have hmoved := (hk.behind ended hc.strict.stream hnext nofun).2
      have hposition := hbefore.position
      refine .inr ⟨.of_lt ?_, (hbefore.none.moved c').added c' s'.position rfl⟩
      show q < (s'.moved c').position
      omega
    · have halike := hs.alike_next hc hstep
      refine .inl ⟨s.tree.nextId,
        (s.moved c).added c s.position (.identifier (c.next s).lexeme), ?_, hs.tree.nextId, ?_⟩
      · exact (newName_eq c what s).trans (if_pos (halike.kind.symm.trans hkind))
      · have hmoved := hs.moved hc ended hstep .read (by rw [hkind]; exact nofun)
          (by rw [hkind]; exact nofun)
        rw [halike.lexeme]
        exact hmoved.added c c' s.position s'.position (.identifier _) rfl
  next => cases heq

omit hinserted placed hfacts hstatements in
theorem amended_expectClosing {begun : Prop} {start : Nat} {k : Facts} {s s' : State}
    (hk : k.Holds ⟨0, 0⟩ stream' start s') (hs : Amended q stream' begun start k s s')
    {mark : Punctuator} (what : Expectation)
    (hslash : (TokenKind.punctuator mark).isSlash = false) :
    AmendedBy q stream' begun start .read id (expectClosing c mark what s)
      (expectClosing c' mark what s') := by
  intro b s₁' heq
  rw [expectClosing_eq_expect hc.recover]
  rw [expectClosing_eq_expect hc.strict.recover] at heq
  rcases kind_of_expect_ok heq with ⟨hkind, rfl⟩
  by_cases hstep : s.position = q
  · have hbefore := hs.before_of_eq hstep
    have hnext := (hc.strict.kind_eq s').trans hkind
    have hmoved := (hk.behind ended hc.strict.stream hnext nofun).2
    have hposition := hbefore.position
    exact .inr ⟨.of_lt (by omega), hbefore.none.moved c'⟩
  · have halike := hs.alike_next hc hstep
    refine .inl ⟨(), s.moved c, ?_, rfl,
      hs.moved hc ended hstep .read (by rw [hkind]; exact nofun) ?_⟩
    · exact (expect_eq c mark what s).trans (if_pos (halike.kind.symm.trans hkind))
    · rw [hkind, hslash]
      exact nofun

theorem amended_labeledOr {k l : Facts} {x x' : Nat → NodeId → Attempt NodeId}
    {y y' : Attempt NodeId} (hnext : k.next = some .identifier)
    (hx : forall start start' name, (Scope.amends q stream stream').starts start start' ->
      Parallel ⟨0, 0⟩ (Scope.amends q stream stream') (Offset.id ⟨0, 0⟩) .read (x start name)
        (x' start' (Offset.id ⟨0, 0⟩ name)) l)
    (hy : forall k' : Facts, Parallel ⟨0, 0⟩ (Scope.amends q stream stream') (Offset.id ⟨0, 0⟩)
      (k'.seeing .identifier) y y' l)
    (hl : l.moved = true)
    (ihx : forall start start' name, (Scope.amends q stream stream').starts start start' ->
      Attempt.Amends q stream' reach reach' (Offset.id ⟨0, 0⟩) .read l (x start name)
        (x' start' (Offset.id ⟨0, 0⟩ name)))
    (ihy : Attempt.Amends q stream' reach reach' (Offset.id ⟨0, 0⟩) (k.seeing .identifier) l y y') :
    Attempt.Amends q stream' reach reach' (Offset.id ⟨0, 0⟩) k l
      (fun reach => labeledOr c (fun start name => x start name reach) (y reach))
      (fun reach => labeledOr c' (fun start name => x' start name reach) (y' reach)) := by
  intro begun start s s' hk hs b s₁' heq
  have heq : labeledOr c' (fun start name => x' start name reach') (y' reach') s' = .ok b s₁' := heq
  show (exists a s₁, labeledOr c (fun start name => x start name reach) (y reach) s =
    .ok a s₁ ∧ _) ∨ _
  have hkind : (c'.next s').kind = .identifier := by
    rw [hc.strict.next_eq]
    exact hk.next _ hnext
  rw [labeledOr_eq] at heq ⊢
  split at heq
  next hcolon =>
    rw [bind_newName, if_pos hkind, bind_advance] at heq
    rcases hk.label ended hc.strict hkind hcolon rfl with ⟨hlabel, hmoved⟩
    rw [hs.tree.nextId] at heq
    by_cases hstep : s.position ≤ q -> s.position + 1 < q
    · have halike := hs.alike_next hc fun hat => by
        have hlt := hstep (Nat.le_of_eq hat)
        omega
      have hcolon₁ := (hs.alike_get hc 1 hstep).kind.symm.trans hcolon
      rw [if_pos hcolon₁, bind_newName, if_pos (halike.kind.symm.trans hkind), bind_advance]
      exact ihx s.position s'.position s.tree.nextId trivial begun start _ _ hlabel
        (hs.labeled hc ended hstep hkind hcolon) b s₁' heq
    · rw [Classical.not_imp] at hstep
      have hbefore : BeforeMark q stream' s s' := by
        refine hs.side.resolve_right fun hbehind => ?_
        have hposition := hbehind.position
        have hle := hbehind.le
        omega
      have hposition := hbefore.position
      rcases (hx s.position s'.position s.tree.nextId trivial).keepsStatements ended
        (fineFrom_endsElsewhere placed hinserted.pos hinserted.le) hfacts hstatements
        (fun _ _ => Scope.strict_of_amends) Scope.starts_amends hlabel False.elim
        (.of_lt (by omega)) heq
        (((hbefore.none.moved c').added c' s'.position rfl).moved c') with ⟨hbeyond, hnone⟩
      exact .inr ⟨hbeyond, hnone⟩
  next hcolon =>
    by_cases hstep : s.position = q
    · have hbefore := hs.before_of_eq hstep
      refine .inr ((hy .start).missed hinserted ended placed hfacts hstatements hl ?_ ?_
        hbefore.none
        heq l)
      · exact .here (Nat.zero_le _) hk.bounded (Nat.zero_le _) rfl nofun
          (by rintro _ ⟨rfl⟩; exact hk.next _ hnext)
      · rw [hbefore.position, hstep]
    · have hother : (c.stream.get (s.position + 1)).kind ≠ .punctuator .colon := by
        by_cases hsecond : s.position + 1 = q
        · rw [hc.stream, hsecond, hinserted.mark]
          exact nofun
        · rw [← (hs.alike_get hc 1 fun hle => by omega).kind]
          exact hcolon
      rw [if_neg hother]
      exact ihy begun start s s' { hk with next := by rintro kind ⟨rfl⟩; exact hk.next _ hnext }
        ⟨hs.tree, hs.side.imp_right fun hbehind => { hbehind with }⟩ b s₁' heq

end

include hreach

theorem Parallel.amended {α β : Type} {u : α → β} {k l : Facts} {x : Attempt α} {x' : Attempt β}
    (h : Parallel ⟨0, 0⟩ (Scope.amends q stream stream') u k x x' l) {begun : Prop} {start : Nat}
    {s s' : State} (hk : k.Holds ⟨0, 0⟩ stream' start s')
    (hs : Amended q stream' begun start k s s') :
    AmendedBy q stream' begun start l u (x reach s) (x' reach' s') := by
  have hlink (c c' : Context) (h : (Scope.amends q stream stream').link c c') :
      c'.Strict stream' := h.strict
  induction h generalizing begun start s s' with
  | pure v k a => exact .ok hs
  | @bind _ _ _ _ u v k m l x x' f f' hx hf ihx ihf =>
      have hheld := hx.keeps ended hlink Scope.starts_amends hfacts start s' hk
      refine (ihx hk hs).bind ?_ fun a s₁ s₁' hxa hs₁ => ihf a (hheld _ s₁' hxa).2.1 hs₁
      intro b s₁' b' s₂' hxb hmissed hfb
      rcases hheld b s₁' hxb with ⟨⟨a, rfl⟩, hm, _⟩
      rcases (hf a).keepsStatements ended (fineFrom_endsElsewhere placed hinserted.pos hinserted.le)
        hfacts hstatements hlink Scope.starts_amends hm False.elim hmissed.beyond hfb
        hmissed.none with
        ⟨hbeyond, hnone⟩
      exact ⟨hbeyond, hnone⟩
  | weaken _ hfrom hto ih => exact (ih (hk.covers hfrom) (hs.covers hfrom)).covers hto
  | @position _ _ v k l f f' _ ih => exact ih s.position s'.position trivial hk hs
  | look c c' stays hc hmm hml hstay hread ihstay ihread =>
      exact amended_look hinserted ended placed hfacts hstatements hc hmm hml hstay hread
        (fun t t' h hn _ _ _ _ => ihstay t t' h hn)
        (fun t t' h ha _ _ _ _ => ihread t t' h ha _ (.refl _)) begun start s s' hk hs
  | @advance k c c' kind hc hnext hend _ hslash =>
      have hkind : (c'.next s').kind = kind := by
        rw [← hk.next kind hnext, ← hc.strict.stream]
        rfl
      rintro _ _ ⟨rfl⟩
      by_cases hstep : s.position = q
      · have hbefore := hs.before_of_eq hstep
        have hmoved := (hk.behind ended hc.strict.stream (hk.next kind hnext) hend).2
        have hposition := hbefore.position
        refine .inr ⟨.of_lt ?_, hbefore.none.moved c'⟩
        show q < (s'.moved c').position
        omega
      · exact .inl ⟨(), s.moved c, rfl, rfl, hs.moved hc ended hstep _ (by rw [hkind]; exact hend)
          (by rw [hkind]; exact hslash)⟩
  | @add k c c' first first' node hc _ _ hplain =>
      intro b s₁' heq
      have heq : addSince c' first' (node.map (Offset.id ⟨0, 0⟩)) s' = .ok b s₁' := heq
      rw [addSince_eq] at heq
      cases heq
      exact .inl ⟨s.tree.nextId, s.added c first node, addSince_eq _ _ _ _, hs.tree.nextId,
        hs.added c c' first first' node hplain⟩
  | @finish _ _ u k m front front' c c' ending node node' hc hstill hfront hnode hplain _ hmoved
      hunended hclosed ih =>
      -- What the statement is made of begins here.
      have hhere : k.Holds ⟨0, 0⟩ stream' s'.position s' := hk.restart hstill
      exact .endedBy hinserted ended placed hc ending hnode hplain hmoved hunended hclosed hk.onward
        (fun hbegun => by
          rcases hs.side with hbefore | hbehind
          · have hposition := hbefore.position
            omega
          · exact hbehind.le)
        (hfront.keeps ended hlink Scope.starts_amends hfacts s'.position s' hhere)
        (ih hhere (hs.restart fun h => h))
  | name k c c' what hc => exact amended_newName ended hc hk hs what
  | fail => exact .error
  | closing k c c' mark what hc _ hslash =>
      exact amended_expectClosing ended hc hk hs what hslash
  | closedByEnd v k l c c' atEnd a what fault hc =>
      have hfails : ¬ (atEnd && c'.options.recover) = true := by
        rw [hc.strict.recover, Bool.and_false]
        exact nofun
      simp only [if_neg hfails]
      exact .error
  | missing c c' hc _ ih =>
      have hstrict : ¬ c'.options.recover = true := by
        rw [hc.strict.recover]
        exact nofun
      have hstrict₁ : ¬ c.options.recover = true := by
        rw [hc.recover]
        exact nofun
      simp only [if_neg hstrict, if_neg hstrict₁]
      exact ih hk hs
  | @nested _ _ v k l c c' x x' hc _ ih =>
      show AmendedBy q stream' begun start l v (Grammar.nested c (fun deeper => x deeper reach) s)
        (Grammar.nested c' (fun deeper => x' deeper reach') s')
      rw [nested_eq, nested_eq, hc.depth]
      split
      next => exact .error
      next =>
        have hamended := ih hk hs
        unfold Context.deeper at hamended
        rw [hc.depth] at hamended
        exact hamended
  | label c c' hc hnext hx hy hl ihx ihy =>
      exact amended_labeledOr hinserted ended placed hfacts hstatements hc hnext hx hy hl
        (fun first first' name h _ _ _ _ => ihx first first' name h)
        (fun _ _ _ _ => ihy _) begun start
        s s' hk hs
  | @reach k goal first c c' agreed hc hreaches _ _ _ =>
      have hkeeps := hfacts goal first c' s' hc.strict (Nat.zero_le _) hk.bounded (Nat.zero_le _)
      refine .after goal agreed hs hk.onward hkeeps (hreach goal first c c' s s' hc hk.bounded
        (hs.restart nofun) fun hoperation => ?_)
      rw [show goal.isOperation = false from hreaches] at hoperation
      cases hoperation

/-!
## The rules that are left
-/

variable {c c' : Context} (hc : Amends q stream stream' c c') {s s' : State}

include hc

omit hinserted ended placed in
/-- The rest of an operation behind something that does not end with a semicolon. -/
theorem amended_operationTail {x x' : Reader NodeId} (floor first first' : Nat) {begun : Prop}
    {start : Nat}
    (hx : AmendedBy q stream' begun start .read (Offset.id ⟨0, 0⟩) (x s) (x' s'))
    (hkeeps : Keeps ⟨0, 0⟩ stream' start (Offset.id ⟨0, 0⟩) .read s' (x' s')) :
    AmendedBy q stream' begun start .read (Offset.id ⟨0, 0⟩)
      ((x >>= fun left => reach (.binaryTail floor first left) c) s)
      ((x' >>= fun left => reach' (.binaryTail floor first' left) c') s') := by
  refine hx.bind ?_ fun left s₁ s₁' hxa hs₁ => ?_
  · intro b s₁' b' s₂' hxb hmissed hfb
    rcases hkeeps b s₁' hxb with ⟨⟨left, rfl⟩, hk₁, _⟩
    have hlt := hmissed.beyond.lt False.elim rfl rfl
    have honward := (hfacts (.binaryTail floor first left) first' c' s₁' hc.strict (Nat.zero_le _)
      hk₁.bounded (Nat.zero_le _) b' s₂' hfb).2.2
    exact ⟨.of_lt (Nat.lt_of_lt_of_le hlt honward),
      (keepsStatements_goal hfacts hstatements hc.strict (.binaryTail floor first left)
        first' hk₁.bounded
        hmissed.beyond.passed hfb hmissed.none).2.2⟩
  · have hk₁ := (hkeeps _ s₁' hxa).2.1
    refine .after (.binaryTail floor first left) false hs₁ hk₁.onward
      (hfacts (.binaryTail floor first left) first' c' s₁' hc.strict (Nat.zero_le _) hk₁.bounded
        (Nat.zero_le _))
      (hreach (.binaryTail floor first left) first' c c' s₁ s₁' hc hk₁.bounded
        (hs₁.restart nofun) ?_)
    -- The semicolon is not the last token that has been read.
    intro _ hposition hat
    rcases hs₁.side with hbefore | hbehind
    · have hsame := hbefore.position
      omega
    · have hinside := hbehind.inside hat
      cases hinside

omit hinserted placed in
theorem amended_operation (floor first first' : Nat) (left : NodeId) {operator : BinaryOperator}
    {begun : Prop} (hbound : s'.position ≤ stream'.size)
    (hs : Amended q stream' begun s'.position .common s s') (hstep : s.position ≠ q)
    (hoperator : operatorAt? c' (c'.next s').kind = some operator) :
    AmendedBy q stream' begun s'.position .read (Offset.id ⟨0, 0⟩)
      ((advance c >>= fun _ => reach (.binary operator.precedence) c >>= fun right =>
        addSince c first (.binary operator left right) >>= fun joined =>
          reach (.binaryTail floor first joined) c) s)
      ((advance c' >>= fun _ => reach' (.binary operator.precedence) c' >>= fun right =>
        addSince c' first' (.binary operator (Offset.id ⟨0, 0⟩ left) right) >>= fun joined =>
          reach' (.binaryTail floor first' joined) c') s') := by
  have hend := operatorAt?_ne_endOfText hoperator
  have hkind := hc.strict.kind_eq s'
  have hother : (c'.next s').kind ≠ .punctuator .semicolon := by
    intro hmark
    rw [hmark] at hoperator
    cases hoperator
  have hhere : Facts.start.Holds ⟨0, 0⟩ stream' s'.position s' :=
    .here (Nat.zero_le _) hbound (Nat.zero_le _) rfl nofun nofun
  rcases hhere.behind ended hc.strict.stream hkind hend with ⟨hbehind, hposition⟩
  have hread := hbehind.covers (Facts.behind_covers_read hother)
  have hmoved := hs.moved hc ended hstep .read hend fun _ => rfl
  have hright := Keeps.goal hfacts (.binary operator.precedence) 0 hc.strict hread false
  rw [bind_advance, bind_advance]
  simp only [← bind_assoc]
  refine amended_operationTail hfacts hstatements hreach hc floor first first' ?_
    (hright.bind fun right s₂ h₂ =>
      Keeps.addSince h₂ c' first' (.binary operator (Offset.id ⟨0, 0⟩ left)
        (Offset.id ⟨0, 0⟩ right)))
  have hgoal := hreach (.binary operator.precedence) 0 c c' _ _ hc hread.bounded
    (hmoved.restart nofun) nofun
  have hafter := AmendedBy.after (.binary operator.precedence) false hmoved
    (by rw [hposition]; exact Nat.le_succ _)
    (hfacts (.binary operator.precedence) 0 c' _ hc.strict (Nat.zero_le _) hread.bounded
      (Nat.zero_le _)) hgoal
  refine hafter.bind ?_ fun right s₂ s₂' _ hs₂ => ?_
  · intro b s₂' b' s₃' _ hmissed hadd
    rw [addSince_eq] at hadd
    cases hadd
    exact ⟨⟨hmissed.beyond.passed, hmissed.beyond.stuck⟩, hmissed.none.added c' first' rfl⟩
  · rw [addSince_eq, addSince_eq, hs₂.tree.nextId]
    exact .ok (hs₂.added c c' first first' (.binary operator left right) rfl)

variable (hbound : s'.position ≤ stream'.size)
  (hs : Amended q stream' (s.position = s'.position + 1) s'.position .start s s')

include hbound hs

omit hinserted ended placed hfacts hstatements in
theorem amended_branchRule :
    AmendedBy q stream' (s.position = s'.position + 1) s'.position
      (Facts.start.after .branch false) (Offset.id ⟨0, 0⟩) (branchRule reach c s)
      (branchRule reach' c' s') := by
  rw [branchRule_eq_statement hc.recover, branchRule_eq_statement hc.strict.recover]
  exact hreach .statement 0 c c' s s' hc hbound hs nofun

omit hinserted ended placed in
theorem amended_binaryRule (floor : Nat) :
    AmendedBy q stream' (s.position = s'.position + 1) s'.position
      (Facts.start.after (.binary floor) false) (Offset.id ⟨0, 0⟩) (binaryRule reach floor c s)
      (binaryRule reach' floor c' s') := by
  unfold binaryRule
  rw [bind_position, bind_position]
  exact amended_operationTail hfacts hstatements hreach hc floor s.position s'.position
    (hreach .unary 0 c c' s s' hc hbound hs nofun)
    (hfacts .unary 0 c' s' hc.strict (Nat.zero_le _) hbound (Nat.zero_le _))

omit hinserted placed in
theorem amended_binaryTailRule (floor first first' : Nat) (left : NodeId)
    (hoperation : s.position = s'.position + 1 -> s'.position ≠ q) :
    AmendedBy q stream' (s.position = s'.position + 1) s'.position
      (Facts.start.after (.binaryTail floor first left) false) (Offset.id ⟨0, 0⟩)
      (binaryTailRule reach floor first left c s)
      (binaryTailRule reach' floor first' (Offset.id ⟨0, 0⟩ left) c' s') := by
  unfold binaryTailRule
  rw [bind_peekKind, bind_peekKind]
  by_cases hstep : s.position = q
  · -- The first reading ends at the semicolon, and the second one there or behind it.
    have hbefore := hs.before_of_eq hstep
    have hnone : operatorAt? c (c.next s).kind = none := by
      rw [hc.kind_next_of_eq hstep]
      rfl
    have hposition := hbefore.position
    rw [hnone]
    cases hoperator : operatorAt? c' (c'.next s').kind with
    | none => exact .ok hs
    | some operator =>
        dsimp only
        split
        next => exact .ok hs
        next =>
          refine .of_missed fun b s₁' hread => ⟨.of_lt ?_, ?_⟩
          · have hmoves :=
              (keeps_operation hfacts hc.strict (.here (Nat.zero_le _) hbound (Nat.zero_le _)
              rfl nofun nofun) ended floor first' left hoperator b s₁' hread).2.1.moved rfl
            omega
          · exact keepsStatements_operation hfacts hstatements hc.strict ended floor first' _
              hbound (by omega)
              hoperator hread hbefore.none
  · have hkind := (hs.alike_next hc hstep).kind
    rw [← hkind, ← operatorAt?_eq hc.allowIn]
    cases hoperator : operatorAt? c' (c'.next s').kind with
    | none => exact .ok hs
    | some operator =>
        dsimp only
        split
        next => exact .ok hs
        next =>
          have hs₁ : Amended q stream' (s.position = s'.position + 1) s'.position .common s s' :=
            ⟨hs.tree, hs.side.imp_right fun hbehind => hbehind.of_lt
              (Nat.lt_of_le_of_ne hbehind.le (hoperation hbehind.position).symm) _ _ _⟩
          exact (amended_operation ended hfacts hstatements hreach hc floor first first' left
            hbound hs₁ hstep
            hoperator).covers ⟨nofun, fun _ => rfl, fun _ => rfl, nofun, nofun, nofun⟩

theorem amended_applyRule (goal : Goal) (start' : Nat)
    (hoperation : goal.isOperation = true -> s.position = s'.position + 1 -> s'.position ≠ q) :
    AmendedBy q stream' (s.position = s'.position + 1) s'.position
      (Facts.start.after goal false) (goal.placedResult ⟨0, 0⟩ start') (applyRule reach goal c s)
      (applyRule reach' (goal.placed ⟨0, 0⟩ start') c' s') := by
  cases hgoal : goal.isParallel with
  | true =>
      have hinside := goal.facts_eq.2.1
      exact (parallel_applyRule hc (Scope.full_amends q stream stream') goal start' hgoal
        fun _ => trivial).amended hinserted ended placed hfacts hstatements hreach
          (.goal goal (Nat.zero_le _) hbound (Nat.zero_le _))
          (hs.restart fun hsame => by rw [hinside] at hsame; cases hsame)
  | false =>
      cases goal with
      | branch => exact amended_branchRule hreach hc hbound hs
      | binary floor => exact amended_binaryRule hfacts hstatements hreach hc hbound hs floor
      | binaryTail floor first left =>
          exact amended_binaryTailRule ended hfacts hstatements hreach hc hbound hs floor
            first start' left
            (hoperation rfl)
      | _ => cases hgoal

end

end

theorem amends_grammar {q : Nat} {stream stream' : TokenStream}
    (hinserted : InsertedAt q stream stream') (ended : stream'.Ended) (placed : stream'.Placed)
    {budget budget' : Nat} (hle : budget' ≤ budget) :
    Strategy.Amends q stream stream' (grammar budget) (grammar budget') := by
  induction budget' generalizing budget with
  | zero =>
      intro goal start' c c' s s' _ _ _ _
      exact .error
  | succ budget' ih =>
      cases budget with
      | zero => cases hle
      | succ budget =>
          intro goal start' c c' s s' hc hbound hs hoperation
          exact amended_applyRule hinserted ended placed (keepsFacts_grammar ⟨0, 0⟩ ended budget')
            (keepsStatements_grammar ended
              (fineFrom_endsElsewhere placed hinserted.pos hinserted.le) budget')
            (ih (Nat.le_of_succ_le_succ hle)) hc hbound hs goal start' hoperation

end Grammar
end ScriptHints

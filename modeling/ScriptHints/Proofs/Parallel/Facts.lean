import ScriptHints.Proofs.Parallel.Statements
import ScriptHints.Proofs.Reader.Progress

/-!
# Facts about positions in strict readings

The facts that are noted about positions hold in a strict reading: every goal that cannot be
empty reads a token, and what is no statement does not end with a semicolon. The nodes that it
names are behind the offset. Where `in` comes next and is no operator, nothing is read any
more, and nothing
at the end of the text.
-/

namespace ScriptHints
namespace Grammar

open Syntax Token

structure Context.Strict (stream : TokenStream) (c : Context) : Prop where
  stream : c.stream = stream
  recover : c.options.recover = false

namespace Context.Strict

variable {stream : TokenStream} {c : Context} (hc : c.Strict stream)
include hc

theorem next_eq (s : State) : c.next s = stream.get s.position := by
  rw [← hc.stream]
  rfl

theorem kind_eq (s : State) : (stream.get s.position).kind = (c.next s).kind :=
  congrArg Token.kind (hc.next_eq s).symm

theorem not_recover : ¬ c.options.recover = true := by
  rw [hc.recover]
  exact nofun

theorem not_and_recover (b : Bool) : ¬ (b && c.options.recover) = true := by
  rw [hc.recover, Bool.and_false]
  exact nofun

end Context.Strict

section

variable {c : Context} (hc : c.options.recover = false) (s : State)
include hc

theorem expectClosing_eq_expect (mark : Punctuator) (what : Expectation) :
    expectClosing c mark what s = expect c mark what s := by
  rw [expectClosing_eq, if_neg]
  rw [hc]
  exact nofun

theorem branchRule_eq_statement (reach : Strategy) :
    branchRule reach c s = reach .statement c s := by
  unfold branchRule
  rw [recovering_eq, if_neg]
  rw [hc]
  exact nofun

end

/-- The facts hold of a state, compared with where the reading started. -/
structure Facts.Holds (d : Offset) (stream : TokenStream) (start : Nat) (k : Facts) (s : State) :
    Prop where
  front : d.tokens ≤ start
  onward : start ≤ s.position
  bounded : s.position ≤ stream.size
  nodes : d.nodes ≤ s.tree.size
  moved : k.moved = true -> start < s.position
  unended : k.unended = true -> start < s.position ->
    (stream.get (s.position - 1)).kind ≠ .punctuator .semicolon
  inside : k.inside = true -> (stream.get (s.position - 1)).kind ≠ .punctuator .semicolon
  next : forall kind, k.next = some kind -> (stream.get s.position).kind = kind

namespace Facts.Holds

variable {d : Offset} {stream : TokenStream} {start : Nat} {k l : Facts} {s : State}

theorem covers (h : k.Holds d stream start s) (hl : k.Covers l) : l.Holds d stream start s where
  front := h.front
  onward := h.onward
  bounded := h.bounded
  nodes := h.nodes
  moved hm := h.moved (hl.moved hm)
  unended hm := h.unended (hl.unended hm)
  inside hm := h.inside (hl.inside hm)
  next kind hm := h.next kind (hl.next kind hm)

theorem unseen (h : k.Holds d stream start s) : k.unseen.Holds d stream start s :=
  h.covers k.covers_unseen

theorem seeing (h : k.Holds d stream start s) :
    (k.seeing (stream.get s.position).kind).Holds d stream start s :=
  { h with next := by rintro kind ⟨rfl⟩; rfl }

theorem added (h : k.Holds d stream start s) (c : Context) (first : Nat) (node : Node) :
    k.Holds d stream start (s.added c first node) :=
  { h with
    nodes := by
      show d.nodes ≤ (s.tree.add node _).size
      rw [SyntaxTree.size_add]
      exact Nat.le_succ_of_le h.nodes }

theorem here (hfront : d.tokens ≤ s.position) (hbound : s.position ≤ stream.size)
    (hnodes : d.nodes ≤ s.tree.size)
    (hmoved : k.moved = false)
    (hinside : k.inside = true -> (stream.get (s.position - 1)).kind ≠ .punctuator .semicolon)
    (hnext : forall kind, k.next = some kind -> (stream.get s.position).kind = kind) :
    k.Holds d stream s.position s where
  front := hfront
  onward := Nat.le_refl _
  bounded := hbound
  nodes := hnodes
  moved hm := by rw [hmoved] at hm; cases hm
  unended _ hlt := absurd hlt (Nat.lt_irrefl _)
  inside := hinside
  next := hnext

theorem restart (h : k.Holds d stream start s) (hmoved : k.moved = false) :
    k.Holds d stream s.position s :=
  .here (Nat.le_trans h.front h.onward) h.bounded h.nodes hmoved h.inside h.next

theorem goal (goal : Goal) (hfront : d.tokens ≤ s.position) (hbound : s.position ≤ stream.size)
    (hnodes : d.nodes ≤ s.tree.size) : goal.facts.Holds d stream s.position s := by
  rcases goal.facts_eq with ⟨hmoved, hinside, hnext⟩
  refine .here hfront hbound hnodes hmoved ?_ fun kind hkind => absurd hkind (hnext kind)
  rw [hinside]
  exact nofun

theorem behind (h : k.Holds d stream start s) (ended : stream.Ended) {c : Context}
    (hc : c.stream = stream) {kind : TokenKind} (hkind : (stream.get s.position).kind = kind)
    (hend : kind ≠ .endOfText) :
    (Facts.behind kind).Holds d stream start (s.moved c) ∧
      (s.moved c).position = s.position + 1 := by
  have hlt : s.position < stream.size := by
    apply Nat.lt_of_not_le
    intro hle
    rw [(ended.kind_get_eq_iff _).mpr hle] at hkind
    exact hend hkind.symm
  have hstart := h.onward
  unfold State.moved
  rw [hc, if_pos hlt]
  refine ⟨?_, rfl⟩
  constructor
  · exact h.front
  · exact Nat.le_succ_of_le hstart
  · exact hlt
  · exact h.nodes
  · intro _
    exact Nat.lt_succ_of_le hstart
  · intro hunended _
    show (stream.get (s.position + 1 - 1)).kind ≠ _
    rw [Nat.add_sub_cancel, hkind]
    exact of_decide_eq_true hunended
  · intro hinside
    show (stream.get (s.position + 1 - 1)).kind ≠ _
    rw [Nat.add_sub_cancel, hkind]
    exact of_decide_eq_true hinside
  · nofun

end Facts.Holds

theorem exists_id_of_le {d : Offset} (i : NodeId) (h : d.nodes ≤ i.index) :
    exists j, i = d.id j := by
  refine ⟨⟨i.index - d.nodes⟩, ?_⟩
  show i = ⟨d.nodes + (i.index - d.nodes)⟩
  rw [Nat.add_sub_cancel' h]

/-!
## Strict readings keep the facts
-/

/-- What a reading that succeeds says about its value and its position. -/
def Keeps (d : Offset) (stream : TokenStream) (start : Nat) {α β : Type} (v : α → β) (l : Facts)
    (s : State) (r : EStateM.Result SyntaxError State β) : Prop :=
  forall b s', r = .ok b s' ->
    (exists a, b = v a) ∧ l.Holds d stream start s' ∧ s.position ≤ s'.position

def Strategy.KeepsFacts (d : Offset) (stream : TokenStream) (reach : Strategy) : Prop :=
  forall (goal : Goal) (start' : Nat) (c : Context) (s : State), c.Strict stream ->
    d.tokens ≤ s.position -> s.position ≤ stream.size -> d.nodes ≤ s.tree.size ->
      Keeps d stream s.position (goal.placedResult d start') (Facts.start.after goal false) s
        (reach (goal.placed d start') c s)

section

variable {d : Offset} {stream : TokenStream} {start : Nat} {α β γ δ : Type} {u : α → β} {v : γ → δ}
  {k l m : Facts} {s : State}

theorem Keeps.ok {a : α} {s' : State} (h : l.Holds d stream start s')
    (hle : s.position ≤ s'.position) :
    Keeps d stream start u l s (.ok (u a) s' : EStateM.Result SyntaxError State β) := by
  rintro _ _ ⟨rfl⟩
  exact ⟨⟨a, rfl⟩, h, hle⟩

theorem Keeps.error {e : SyntaxError} {s' : State} :
    Keeps d stream start u l s (.error e s' : EStateM.Result SyntaxError State β) := by
  intro b s' heq
  cases heq

theorem Keeps.covers {r : EStateM.Result SyntaxError State β} (h : Keeps d stream start u l s r)
    (hm : l.Covers m) : Keeps d stream start u m s r := by
  intro b s' heq
  rcases h b s' heq with ⟨hvalue, hl, hle⟩
  exact ⟨hvalue, hl.covers hm, hle⟩

theorem Keeps.bind {x : Reader β} {f : β → Reader δ} (hx : Keeps d stream start u m s (x s))
    (hf : forall a s₁, m.Holds d stream start s₁ ->
      Keeps d stream start v l s₁ (f (u a) s₁)) :
    Keeps d stream start v l s ((x >>= f) s) := by
  intro b s' heq
  rcases bind_ok_iff.mp heq with ⟨b₁, s₁, hxb, hfb⟩
  rcases hx b₁ s₁ hxb with ⟨⟨a, rfl⟩, hm, hle⟩
  rcases hf a s₁ hm b s' hfb with ⟨hvalue, hl, hle'⟩
  exact ⟨hvalue, hl, Nat.le_trans hle hle'⟩

theorem Keeps.goal {reach : Strategy} (hreach : reach.KeepsFacts d stream) (goal : Goal)
    (start' : Nat)
    {c : Context} (hc : c.Strict stream) (hk : k.Holds d stream start s) (agreed : Bool) :
    Keeps d stream start (goal.placedResult d start') (k.after goal agreed) s
      (reach (goal.placed d start') c s) := by
  intro b s' heq
  have hstart := hk.onward
  have hfront := hk.front
  rcases hreach goal start' c s hc (Nat.le_trans hfront hstart) hk.bounded hk.nodes b s' heq with
    ⟨hvalue, hgoal, honward⟩
  refine ⟨hvalue, ?_, honward⟩
  constructor
  · exact hfront
  · omega
  · exact hgoal.bounded
  · exact hgoal.nodes
  · intro hmoved
    rcases Bool.or_eq_true_iff.mp hmoved with hfull | hmoved
    · have hlt := hgoal.moved (by simp [Facts.after, hfull])
      omega
    · have hlt := hk.moved hmoved
      omega
  · intro hunended hlt
    rcases Bool.and_eq_true_iff.mp hunended with ⟨hplain, hbefore⟩
    by_cases hmoved : s.position < s'.position
    · exact hgoal.unended (by simp [Facts.after, hplain, Facts.start]) hmoved
    · have hsame : s'.position = s.position := by omega
      rcases Bool.or_eq_true_iff.mp hbefore with hfull | hbefore
      · exact absurd (hgoal.moved (by simp [Facts.after, hfull])) hmoved
      · rw [hsame] at hlt ⊢
        exact hk.unended hbefore hlt
  · intro hinside
    rcases Bool.and_eq_true_iff.mp hinside with ⟨hplain, hbefore⟩
    by_cases hmoved : s.position < s'.position
    · exact hgoal.unended (by simp [Facts.after, hplain, Facts.start]) hmoved
    · have hsame : s'.position = s.position := by omega
      rcases Bool.or_eq_true_iff.mp hbefore with hfull | hbefore
      · exact absurd (hgoal.moved (by simp [Facts.after, hfull])) hmoved
      · rw [hsame]
        exact hk.inside hbefore
  · nofun

theorem Keeps.addSince (hk : k.Holds d stream start s) (c : Context) (first : Nat) (node : Node) :
    Keeps d stream start d.id k s (addSince c first node s) := by
  rw [addSince_eq]
  intro b s' heq
  cases heq
  exact ⟨exists_id_of_le _ hk.nodes, hk.added c first node, Nat.le_refl _⟩

theorem Keeps.advance (ended : stream.Ended) {c : Context} (hc : c.Strict stream)
    (hk : k.Holds d stream start s) {kind : TokenKind} (hkind : (stream.get s.position).kind = kind)
    (hend : kind ≠ .endOfText) : Keeps d stream start id (.behind kind) s (advance c s) := by
  rcases hk.behind ended hc.stream hkind hend with ⟨hbehind, hmoved⟩
  rw [advance_eq]
  exact .ok (a := ()) hbehind (Nat.le_of_lt (by rw [hmoved]; exact Nat.lt_succ_self _))

theorem Keeps.expect (ended : stream.Ended) {c : Context} (hc : c.Strict stream)
    (hk : k.Holds d stream start s) (mark : Punctuator) (what : Expectation) :
    Keeps d stream start id (.behind (.punctuator mark)) s (expect c mark what s) := by
  rw [expect_eq]
  split
  next hkind =>
    rw [hc.next_eq] at hkind
    exact .advance ended hc hk hkind nofun
  next => exact .error

theorem Keeps.ending (ended : stream.Ended) {c : Context} (hc : c.Strict stream)
    (hk : k.Holds d stream start s) (hmoved : k.moved = true) (ending : Ending) :
    Keeps d stream start id .ended s (ending.read c s) := by
  have hstays : Facts.ended.Holds d stream start s :=
    { hk with moved := fun _ => hk.moved hmoved, unended := nofun, inside := nofun, next := nofun }
  by_cases hmark : (c.next s).kind = .punctuator .semicolon
  · rw [ending.read_of_semicolon hmark]
    rw [hc.next_eq] at hmark
    exact (Keeps.advance ended hc hk hmark nofun).covers (Facts.behind_covers_ended _)
  · intro b s' heq
    rw [((ending.read_ok_iff hmark).mp heq).2]
    exact ⟨⟨(), rfl⟩, hstays, Nat.le_refl _⟩

theorem Keeps.newName (ended : stream.Ended) {c : Context} (hc : c.Strict stream)
    (hk : k.Holds d stream start s) (what : Expectation) :
    Keeps d stream start d.id .read s (newName c what s) := by
  rw [newName_eq]
  split
  next hkind =>
    rw [hc.next_eq] at hkind
    rcases hk.behind ended hc.stream hkind nofun with ⟨hbehind, hmoved⟩
    have hread := hbehind.covers (Facts.behind_covers_read nofun)
    intro b s' heq
    cases heq
    refine ⟨exists_id_of_le _ hk.nodes, hread.added c s.position _, ?_⟩
    show s.position ≤ (s.moved c).position
    omega
  next => exact .error

theorem Facts.Holds.label (hk : k.Holds d stream start s) (ended : stream.Ended) {c : Context}
    (hc : c.Strict stream) (hkind : (c.next s).kind = .identifier)
    (hcolon : (c.stream.get (s.position + 1)).kind = .punctuator .colon) {node : Node}
    {s₁ : State} (hs₁ : s₁ = ((s.moved c).added c s.position node).moved c) :
    Facts.read.Holds d stream start s₁ ∧ s₁.position = s.position + 2 := by
  rw [hc.next_eq] at hkind
  rcases hk.behind ended hc.stream hkind nofun with ⟨hname, hmoved⟩
  have hadded := hname.added c s.position node
  have hnext : (stream.get ((s.moved c).added c s.position node).position).kind =
      .punctuator .colon := by
    show (stream.get (s.moved c).position).kind = _
    rw [hmoved, ← hc.stream]
    exact hcolon
  rcases hadded.behind ended hc.stream hnext nofun with ⟨hbehind, hmoved'⟩
  rw [hs₁]
  refine ⟨hbehind.covers (Facts.behind_covers_read nofun), hmoved'.trans ?_⟩
  show (s.moved c).position + 1 = _
  rw [hmoved]

/-- The second of two parallel readings, when it is strict and succeeds. -/
theorem Parallel.keeps {σ : Scope} {x : Attempt α} {x' : Attempt β}
    (h : Parallel d σ u k x x' l) (ended : stream.Ended)
    (hlink : forall c c', σ.link c c' -> c'.Strict stream)
    (hstarts : forall p, d.tokens ≤ p -> exists start, σ.starts start p) {reach : Strategy}
    (hreach : reach.KeepsFacts d stream) (start : Nat) (s : State) (hk : k.Holds d stream start s) :
    Keeps d stream start u l s (x' reach s) := by
  induction h generalizing s with
  | pure v k a => exact .ok (a := a) hk (Nat.le_refl _)
  | bind _ _ ihx ihf => exact (ihx s hk).bind fun a s₁ h₁ => ihf a s₁ h₁
  | weaken _ hfrom hto ih => exact (ih s (hk.covers hfrom)).covers hto
  | @position _ _ v k l f f' _ ih =>
      rcases hstarts s.position (Nat.le_trans hk.front hk.onward) with ⟨first, hfirst⟩
      exact ih first s.position hfirst s hk
  | @look _ _ v k l m f f' c c' stays hc _ hml _ _ ihstay ihread =>
      have hnext := (hlink c c' hc).next_eq s
      show Keeps d stream start v l s (f' (c'.next s) reach s)
      rw [hnext]
      cases hstays : stays (stream.get s.position) with
      | true => exact ihstay (stream.get s.position) _ hstays (.refl _ _) s hk.unseen
      | false =>
          exact (ihread (stream.get s.position) _ hstays (.refl _ _) k
            (.refl k) s hk.seeing).covers hml
  | advance c c' kind hc hnext hend _ _ =>
      exact .advance ended (hlink c c' hc) hk (hk.next kind hnext) hend
  | add k c c' _ first node hc _ _ _ => exact .addSince hk c' _ _
  | @finish _ _ _ k m front front' c c' ending node node' hc _ _ hnode _ _ hmoved _ _ ih =>
      show Keeps d stream start d.id .ended s (endedBy c' ending node' (front' reach) s)
      unfold endedBy
      rw [bind_position]
      refine (ih s hk).bind fun parts s₁ h₁ => ?_
      refine (Keeps.ending ended (hlink c c' hc) h₁ hmoved ending).bind fun _ s₂ h₂ => ?_
      rw [hnode]
      exact .addSince h₂ c' _ _
  | name k c c' what hc => exact .newName ended (hlink c c' hc) hk what
  | fail => exact .error
  | @closing k c c' mark what hc hmark _ =>
      have hstrict := hlink c c' hc
      show Keeps d stream start id .read s (expectClosing c' mark what s)
      rw [expectClosing_eq_expect hstrict.recover]
      refine (Keeps.expect ended hstrict hk mark what).covers (Facts.behind_covers_read ?_)
      intro hsame
      injection hsame with hsame
      exact hmark hsame
  | closedByEnd v k l c c' atEnd a what fault hc =>
      simp only [if_neg ((hlink c c' hc).not_and_recover atEnd)]
      exact .error
  | missing c c' hc _ ih =>
      simp only [if_neg (hlink c c' hc).not_recover]
      exact ih s hk
  | @nested _ _ v k l c c' x x' hc _ ih =>
      show Keeps d stream start v l s (Grammar.nested c' (fun deeper => x' deeper reach) s)
      rw [nested_eq]
      split
      next => exact .error
      next => exact ih s hk
  | @label k l c c' x x' y y' hc hnext _ _ _ ihx ihy =>
      have hstrict := hlink c c' hc
      show Keeps d stream start d.id l s
        (labeledOr c' (fun start name => x' start name reach) (y' reach) s)
      rw [labeledOr_eq]
      split
      next hcolon =>
        rw [bind_newName]
        split
        next hkind =>
          rw [bind_advance]
          rcases exists_id_of_le s.tree.nextId hk.nodes with ⟨name, hname⟩
          rcases hk.label ended hstrict hkind hcolon rfl with ⟨hread, hmoved⟩
          rcases hstarts s.position (Nat.le_trans hk.front hk.onward) with ⟨first, hfirst⟩
          have hbehind := ihx first s.position name hfirst _ hread
          rw [← hname] at hbehind
          intro b s' heq
          rcases hbehind b s' heq with ⟨hvalue, hl, hle⟩
          exact ⟨hvalue, hl, by omega⟩
        next => exact .error
      next =>
        exact ihy k s { hk with next := by rintro kind ⟨rfl⟩; exact hk.next _ hnext }
  | reach goal first c c' agreed hc _ _ _ _ =>
      exact .goal hreach goal first (hlink c c' hc) hk agreed

/-!
## The grammar keeps the facts
-/

def Scope.strict (stream : TokenStream) : Scope where
  link _ c' := c'.Strict stream
  allowingIn h := ⟨h.stream, h.recover⟩
  forbiddingIn h := ⟨h.stream, h.recover⟩
  deeper h := ⟨h.stream, h.recover⟩
  starts _ _ := True
  adds _ := True
  reaches goal := goal.isOperation = false
  noOperation _ h := h

theorem Scope.full_strict (stream : TokenStream) : (Scope.strict stream).Full where
  adds _ := trivial
  reaches _ h := h

variable {reach : Strategy} (hreach : reach.KeepsFacts d stream) {c : Context}
    (hc : c.Strict stream)
  (hk : Facts.start.Holds d stream s.position s)

include hreach hc hk

theorem keeps_branchRule :
    Keeps d stream s.position d.id (Facts.start.after .branch false) s (branchRule reach c s) := by
  have hstatement := hreach .statement 0 c s hc hk.front hk.bounded hk.nodes
  rw [branchRule_eq_statement hc.recover]
  exact hstatement

theorem keeps_binaryRule (floor : Nat) :
    Keeps d stream s.position d.id (Facts.start.after (.binary floor) false) s
      (binaryRule reach floor c s) := by
  unfold binaryRule
  rw [bind_position]
  refine (Keeps.goal hreach .unary 0 hc hk false).bind fun left s₁ h₁ => ?_
  exact Keeps.goal hreach (.binaryTail floor 0 left) s.position hc h₁ false

theorem keeps_operation (ended : stream.Ended) (floor first : Nat) (left : NodeId)
    {operator : BinaryOperator} (hoperator : operatorAt? c (c.next s).kind = some operator) :
    Keeps d stream s.position d.id .read s
      ((advance c >>= fun _ => reach (.binary operator.precedence) c >>= fun right =>
        addSince c first (.binary operator (d.id left) right) >>= fun joined =>
          reach (.binaryTail floor first joined) c) s) := by
  have hend := operatorAt?_ne_endOfText hoperator
  have hkind := hc.kind_eq s
  refine (Keeps.advance ended hc hk hkind hend).bind fun _ s₁ h₁ => ?_
  refine (Keeps.goal hreach (.binary operator.precedence) 0 hc h₁ false).bind fun right s₂ h₂ => ?_
  refine (Keeps.addSince h₂ c first
    (.binary operator (d.id left) (d.id right))).bind fun joined s₃ h₃ => ?_
  have htail := Keeps.goal hreach (.binaryTail floor 0 joined) first hc h₃ false
  exact htail.covers ⟨fun _ => rfl, fun _ => rfl, fun _ => rfl, nofun, fun _ => rfl, nofun⟩

theorem keeps_binaryTailRule (ended : stream.Ended) (floor first : Nat) (left : NodeId) :
    Keeps d stream s.position d.id (Facts.start.after (.binaryTail floor first left) false) s
      (binaryTailRule reach floor first (d.id left) c s) := by
  unfold binaryTailRule
  rw [bind_peekKind]
  cases hoperator : operatorAt? c (c.next s).kind with
  | none => exact .ok (a := left) hk (Nat.le_refl _)
  | some operator =>
      dsimp only
      split
      next => exact .ok (a := left) hk (Nat.le_refl _)
      next =>
        have hread := keeps_operation hreach hc hk ended floor first left hoperator
        exact hread.covers ⟨nofun, fun _ => rfl, fun _ => rfl, nofun, nofun, nofun⟩

theorem keeps_applyRule (ended : stream.Ended) (goal : Goal) (start' : Nat) :
    Keeps d stream s.position (goal.placedResult d start') (Facts.start.after goal false) s
      (applyRule reach (goal.placed d start') c s) := by
  cases hgoal : goal.isParallel with
  | true =>
      have hlink : (Scope.strict stream).link c c := hc
      have hheld : goal.facts.Holds d stream s.position s := by
        exact .goal goal hk.front hk.bounded hk.nodes
      exact (parallel_applyRule hlink (Scope.full_strict stream) goal start' hgoal
        fun _ => trivial).keeps ended (fun _ _ h => h) (fun _ _ => ⟨0, trivial⟩) hreach
        s.position s hheld
  | false =>
      cases goal with
      | branch => exact keeps_branchRule hreach hc hk
      | binary floor => exact keeps_binaryRule hreach hc hk floor
      | binaryTail floor first left =>
          exact keeps_binaryTailRule hreach hc hk ended floor start' left
      | _ => cases hgoal

end

theorem keepsFacts_grammar (d : Offset) {stream : TokenStream} (ended : stream.Ended)
    (budget : Nat) :
    Strategy.KeepsFacts d stream (grammar budget) := by
  induction budget with
  | zero =>
      intro goal start' c s _ _ _ _
      exact .error
  | succ budget ih =>
      intro goal start' c s hc hfront hbound hnodes
      exact keeps_applyRule ih hc (.here hfront hbound hnodes rfl nofun nofun) ended goal start'

/-!
## Where nothing goes on
-/

structure AtIn (d : Offset) (stream : TokenStream) (s : State) : Prop where
  front : d.tokens ≤ s.position
  bounded : s.position ≤ stream.size
  nodes : d.nodes ≤ s.tree.size
  kind : (stream.get s.position).kind = .keyword .inWord

def Strategy.Barred (d : Offset) (stream : TokenStream) (reach : Strategy) : Prop :=
  forall (goal : Goal) (start' : Nat) (c : Context) (s : State) b s', c.Strict stream ->
    AtIn d stream s -> goal.isWordy = false -> (goal.isOperation = true -> c.allowIn = false) ->
      reach (goal.placed d start') c s = .ok b s' -> s'.position = s.position

/-- At a token at which nothing goes on: an `in` that is no operator, or the end of the text
behind a list of statements. -/
def Facts.Halted (k : Facts) (stream : TokenStream) (p : Nat) : Prop :=
  k.agreed = false ∧ (stream.get p).kind = .keyword .inWord ∨
    k.closed = false ∧ (stream.get p).kind = .endOfText

theorem Facts.Halted.covers {k l : Facts} {stream : TokenStream} {p : Nat} (h : k.Halted stream p)
    (hl : k.Covers l) : l.Halted stream p := by
  rcases h with ⟨hagreed, hkind⟩ | ⟨hclosed, hkind⟩
  · refine .inl ⟨?_, hkind⟩
    rw [Bool.eq_false_iff] at hagreed ⊢
    exact fun h => hagreed (hl.agreed h)
  · refine .inr ⟨?_, hkind⟩
    rw [Bool.eq_false_iff] at hclosed ⊢
    exact fun h => hclosed (hl.closed h)

theorem Facts.Halted.kind_ne {k : Facts} {stream : TokenStream} {p : Nat} (h : k.Halted stream p) :
    (stream.get p).kind ≠ .identifier ∧ forall mark, (stream.get p).kind ≠ .punctuator mark := by
  rcases h with ⟨_, hkind⟩ | ⟨_, hkind⟩
  · rw [hkind]
    exact ⟨nofun, nofun⟩
  · rw [hkind]
    exact ⟨nofun, nofun⟩

section

variable {d : Offset} {stream : TokenStream} (ended : stream.Ended) {reach : Strategy}
  (hfacts : reach.KeepsFacts d stream) (hbarred : reach.Barred d stream)

include ended hfacts hbarred

omit ended hfacts hbarred in
/-- A statement does not end there: what is closed has not halted at the end of the text, and an
`in` is no semicolon. -/
theorem barred_endedBy {α : Type} {front : Reader α} {c : Context} (hc : c.Strict stream)
    {ending : Ending} {node : α → Node} {m : Facts} (hclosed : m.closed = true) {s s' : State}
    {b : NodeId}
    (hfront : forall parts s₁, front s = .ok parts s₁ ->
      s₁.position = s.position ∧ m.Halted stream s.position)
    (hread : endedBy c ending node front s = .ok b s') :
    s'.position = s.position ∧ Facts.ended.Halted stream s.position := by
  unfold endedBy at hread
  rw [bind_position] at hread
  rcases bind_ok_iff.mp hread with ⟨parts, s₁, hparts, hread⟩
  rcases hfront parts s₁ hparts with ⟨hsame, ⟨_, hin⟩ | ⟨hopen, _⟩⟩
  · rcases bind_ok_iff.mp hread with ⟨_, s₂, hending, hadd⟩
    have hother : (c.next s₁).kind ≠ .punctuator .semicolon := by
      rw [hc.next_eq, hsame, hin]
      exact nofun
    rw [((ending.read_ok_iff hother).mp hending).2] at hadd
    cases hadd
    exact ⟨hsame, .inl ⟨rfl, hin⟩⟩
  · rw [hclosed] at hopen
    cases hopen

theorem barred_goal {k : Facts} {start : Nat} {s s' : State} (hk : k.Holds d stream start s)
    (hhalted : k.Halted stream s.position) {goal : Goal} {first : Nat} {c : Context} {agreed : Bool}
    (hc : c.Strict stream) (hplain : goal.isOperation = false)
    (hwordy : goal.isWordy = true -> k.agreed = true)
    (hagreed : agreed = true -> goal.mayBeEmpty = false) {b : (goal.placed d first).Result}
    (hread : reach (goal.placed d first) c s = .ok b s') :
    s'.position = s.position ∧ (k.after goal agreed).Halted stream s.position := by
  have hfront := Nat.le_trans hk.front hk.onward
  rcases hfacts goal first c s hc hfront hk.bounded hk.nodes b s' hread with ⟨_, hgoal, honward⟩
  have hempty (hstayed : s'.position = s.position) : goal.mayBeEmpty = true := by
    cases hgoal' : goal.mayBeEmpty with
    | true => rfl
    | false =>
        have hmoves := hgoal.moved (by simp [Facts.after, hgoal'])
        omega
  rcases hhalted with ⟨hdiffer, hin⟩ | ⟨hclosed, hatEnd⟩
  · have hnoWord : goal.isWordy = false := by
      cases hgoal : goal.isWordy with
      | false => rfl
      | true =>
          rw [hwordy hgoal] at hdiffer
          cases hdiffer
    have hstayed := hbarred goal first c s b s' hc ⟨hfront, hk.bounded, hk.nodes, hin⟩ hnoWord
      (by rw [hplain]; exact nofun) hread
    refine ⟨hstayed, .inl ⟨?_, hin⟩⟩
    cases agreed with
    | false => rfl
    | true =>
        have hfull := hagreed rfl
        rw [hempty hstayed] at hfull
        cases hfull
  · have hbound := (ended.kind_get_eq_iff _).mp hatEnd
    have hbound' := hgoal.bounded
    have hstayed : s'.position = s.position := by omega
    refine ⟨hstayed, .inr ⟨?_, hatEnd⟩⟩
    show (!goal.isOpen && (!goal.mayBeEmpty || k.closed && k.unended)) = false
    rw [hempty hstayed, hclosed]
    exact Bool.and_false _

theorem Parallel.barred {α β : Type} {u : α → β} {k l : Facts} {σ : Scope} {x : Attempt α}
    {x' : Attempt β} (h : Parallel d σ u k x x' l)
    (hlink : forall c c', σ.link c c' -> c'.Strict stream)
    (hstarts : forall p, d.tokens ≤ p -> exists start, σ.starts start p) (start : Nat)
    {s s' : State} {b : β}
    (hk : k.Holds d stream start s) (hhalted : k.Halted stream s.position)
    (hread : x' reach s = .ok b s') : s'.position = s.position ∧ l.Halted stream s.position := by
  induction h generalizing s s' with
  | pure v k a =>
      cases hread
      exact ⟨rfl, hhalted⟩
  | bind hx _ ihx ihf =>
      rcases bind_ok_iff.mp hread with ⟨b₁, s₁, hxb, hfb⟩
      rcases hx.keeps ended hlink hstarts hfacts start s hk b₁ s₁ hxb with ⟨⟨a, rfl⟩, hm, _⟩
      rcases ihx hk hhalted hxb with ⟨hsame, hhalted₁⟩
      rw [← hsame] at hhalted₁ ⊢
      exact ihf a hm hhalted₁ hfb
  | weaken _ hfrom hto ih =>
      rcases ih (hk.covers hfrom) (hhalted.covers hfrom) hread with ⟨hsame, hhalted'⟩
      exact ⟨hsame, hhalted'.covers hto⟩
  | @position _ _ v k l f f' _ ih =>
      rcases hstarts s.position (Nat.le_trans hk.front hk.onward) with ⟨first, hfirst⟩
      exact ih first s.position hfirst hk hhalted hread
  | @look _ _ v k l m f f' c c' stays hc _ hml _ _ ihstay ihread =>
      have hnext := (hlink c c' hc).next_eq s
      have hread : f' (c'.next s) reach s = .ok b s' := hread
      rw [hnext] at hread
      cases hstays : stays (stream.get s.position) with
      | true => exact ihstay (stream.get s.position) _ hstays (.refl _ _) hk.unseen hhalted hread
      | false =>
          rcases ihread (stream.get s.position) _ hstays (.refl _ _) k
            (.refl k) hk.seeing hhalted hread with
            ⟨hsame, hhalted'⟩
          exact ⟨hsame, hhalted'.covers hml⟩
  | advance c c' kind hc hnext hend hword _ =>
      have hkind := hk.next kind hnext
      rcases hhalted with ⟨hagreed, hin⟩ | ⟨_, hatEnd⟩
      · rw [hword (hkind.symm.trans hin)] at hagreed
        cases hagreed
      · exact absurd (hkind.symm.trans hatEnd) hend
  | add k c c' _ first node hc _ _ _ =>
      cases hread
      exact ⟨rfl, hhalted⟩
  | finish c c' ending node node' hc _ hfront _ _ _ _ _ hclosed ih =>
      refine barred_endedBy (hlink c c' hc) hclosed (fun parts s₁ hparts => ?_) hread
      rcases hfront.keeps ended hlink hstarts hfacts start s hk parts s₁ hparts with
        ⟨⟨a, rfl⟩, _, _⟩
      exact ih hk hhalted hparts
  | @name k c c' what hc =>
      have hread : newName c' what s = .ok b s' := hread
      have hkind : (c'.next s).kind ≠ .identifier := by
        rw [(hlink c c' hc).next_eq]
        exact hhalted.kind_ne.1
      rw [newName_eq, if_neg hkind] at hread
      cases hread
  | fail => exact absurd hread fail_ne_ok
  | @closing k c c' mark what hc hmark _ =>
      have hstrict := hlink c c' hc
      have hread : expectClosing c' mark what s = .ok b s' := hread
      have hkind : (c'.next s).kind ≠ .punctuator mark := by
        rw [hstrict.next_eq]
        exact hhalted.kind_ne.2 mark
      rw [expectClosing_eq_expect hstrict.recover, expect_eq, if_neg hkind] at hread
      cases hread
  | closedByEnd v k l c c' atEnd a what fault hc =>
      simp only [if_neg ((hlink c c' hc).not_and_recover atEnd)] at hread
      exact absurd hread fail_ne_ok
  | missing c c' hc _ ih =>
      simp only [if_neg (hlink c c' hc).not_recover] at hread
      exact ih hk hhalted hread
  | @nested _ _ v k l c c' x x' hc _ ih =>
      have hread : Grammar.nested c' (fun deeper => x' deeper reach) s = .ok b s' := hread
      rw [nested_eq] at hread
      split at hread
      next => cases hread
      next => exact ih hk hhalted hread
  | label c c' hc hnext _ _ _ => exact absurd (hk.next _ hnext) hhalted.kind_ne.1
  | reach goal first c c' agreed hc hreaches _ hwordy hsame =>
      exact barred_goal ended hfacts hbarred hk hhalted (hlink c c' hc)
        (σ.noOperation goal hreaches)
        hwordy (fun h => (hsame h).2) hread

variable {c : Context} (hc : c.Strict stream) {s s' : State} (hin : AtIn d stream s)
include hc hin

theorem barred_applyRule (goal : Goal) (start' : Nat) (hplain : goal.isWordy = false)
    (hoperation : goal.isOperation = true -> c.allowIn = false)
    {b : (goal.placed d start').Result}
    (hread : applyRule reach (goal.placed d start') c s = .ok b s') : s'.position = s.position := by
  have hkind : (c.next s).kind = .keyword .inWord := by
    rw [hc.next_eq]
    exact hin.kind
  cases hgoal : goal.isParallel with
  | true =>
      have hlink : (Scope.strict stream).link c c := hc
      have hparallel := parallel_applyRule (d := d) hlink (Scope.full_strict stream) goal
        start' hgoal
        fun _ => trivial
      have hheld : goal.facts.Holds d stream s.position s :=
        .goal goal hin.front hin.bounded hin.nodes
      have hagreed : goal.facts.agreed = false := by
        unfold Goal.facts
        rw [hplain]
        cases goal.isOpen <;> rfl
      exact (hparallel.barred ended hfacts hbarred (fun _ _ h => h)
        (fun _ _ => ⟨0, trivial⟩) s.position
        hheld (.inl ⟨hagreed, hin.kind⟩) hread).1
  | false =>
      cases goal with
      | branch =>
          have hread : branchRule reach c s = .ok b s' := hread
          rw [branchRule_eq_statement hc.recover] at hread
          exact hbarred .statement 0 c s b s' hc hin rfl nofun hread
      | binary floor =>
          have hread : binaryRule reach floor c s = .ok b s' := hread
          unfold binaryRule at hread
          rw [bind_position] at hread
          rcases bind_ok_iff.mp hread with ⟨left, s₁, hunary, _⟩
          have hsame := hbarred .unary 0 c s left s₁ hc hin rfl nofun hunary
          have hmoves :=
            (hfacts .unary 0 c s hc hin.front hin.bounded hin.nodes left s₁ hunary).2.1.moved
            rfl
          omega
      | binaryTail floor first left =>
          have hread : binaryTailRule reach floor start' (d.id left) c s = .ok b s' := hread
          have hnone : operatorAt? c (c.next s).kind = none := by
            rw [hkind]
            unfold operatorAt?
            rw [hoperation rfl]
            rfl
          unfold binaryTailRule at hread
          rw [bind_peekKind, hnone] at hread
          cases hread
          rfl
      | _ => cases hgoal

end

theorem barred_grammar (d : Offset) {stream : TokenStream} (ended : stream.Ended) (budget : Nat) :
    Strategy.Barred d stream (grammar budget) := by
  induction budget with
  | zero =>
      intro goal start' c s b s' _ _ _ _ hread
      exact absurd hread fail_ne_ok
  | succ budget ih =>
      intro goal start' c s b s' hc hin hplain hoperation hread
      exact barred_applyRule ended (keepsFacts_grammar d ended budget) ih hc hin goal start' hplain
        hoperation hread

end Grammar
end ScriptHints

import ScriptHints.Proofs.Parallel.Cut
import ScriptHints.Proofs.Token.Placed

/-!
# Statements and their last tokens

Behind a statement that may end without a semicolon a strict reading goes on, and no statement
that is begun there ends with an earlier token. Every such statement ends with some token.
-/

namespace ScriptHints
namespace Grammar

open Syntax Token

/-!
## Ends of statements
-/

theorem takesSemicolon_map (f : NodeId → NodeId) (node : Node) :
    (node.map f).takesSemicolon = node.takesSemicolon := by
  cases node with
  | «variables» _ statement => cases statement <;> rfl
  | _ => rfl

def StatementsAre (fine : Span → Prop) (tree : SyntaxTree) : Prop :=
  forall id entry, tree.get? id = some entry -> entry.node.takesSemicolon = true -> fine entry.span

namespace StatementsAre

variable {fine : Span → Prop}

theorem empty : StatementsAre fine .empty := by
  intro id entry hentry
  cases hentry

theorem add {tree : SyntaxTree} (h : StatementsAre fine tree) {node : Node} {span : Span}
    (hnew : node.takesSemicolon = true -> fine span) : StatementsAre fine (tree.add node span) := by
  intro id entry hentry htakes
  rw [SyntaxTree.get?_add] at hentry
  split at hentry
  next =>
    cases hentry
    exact hnew htakes
  next =>
    rcases Option.map_eq_some_iff.mp hentry with ⟨entry', hentry', rfl⟩
    rw [Entry.adoptedBy_node] at htakes
    rw [Entry.adoptedBy_span]
    exact h id entry' hentry' htakes

theorem moved {s : State} (h : StatementsAre fine s.tree) (c : Context) :
    StatementsAre fine (s.moved c).tree := by
  rw [s.tree_moved c]
  exact h

theorem added {s : State} (h : StatementsAre fine s.tree) (c : Context) (first : Nat) {node : Node}
    (hplain : node.takesSemicolon = false) : StatementsAre fine (s.added c first node).tree := by
  refine h.add fun htakes => ?_
  rw [hplain] at htakes
  cases htakes

end StatementsAre

theorem finish_spanOf {c : Context} (placed : c.stream.Placed) {first stop : Nat}
    (hsome : first < stop) (hstop : stop ≤ c.stream.size) :
    (c.spanOf first stop).finish = (Span.ofToken (c.stream.get (stop - 1))).finish := by
  unfold Context.spanOf
  have hlast : max (stop - 1) first = stop - 1 := by omega
  rw [hlast]
  have hends : first ≤ stop - 1 := by omega
  exact (placed.union_ofToken hends (by omega)).2.2

theorem finish_spanOf_ne {c : Context} (placed : c.stream.Placed) {first stop p : Nat}
    (hsome : first < stop) (hstop : stop ≤ c.stream.size) (hp : p < c.stream.size)
    (hne : stop - 1 ≠ p) :
    (c.spanOf first stop).finish ≠ (Span.ofToken (c.stream.get p)).finish := by
  rw [finish_spanOf placed hsome hstop]
  have hless {i j : Nat} (hij : i < j) (hj : j < c.stream.size) :
      (Span.ofToken (c.stream.get i)).finish < (Span.ofToken (c.stream.get j)).finish :=
    lt_of_lt_of_le (placed.ordered hij hj) (start_le_finish_ofToken _)
  rcases Nat.lt_or_gt_of_ne hne with hlt | hgt
  · exact ne_of_lt (hless hlt hp)
  · exact (ne_of_lt (hless hgt (by omega))).symm

/-!
## Behind the end of a statement
-/

/-- No statement can end at the position `q` any more: it has been passed, or nothing that may end
there has been read, perhaps because the reading has begun there. -/
structure Facts.Beyond (q : Nat) (begun : Prop) (k : Facts) (s : State) : Prop where
  passed : q ≤ s.position
  stuck : s.position = q -> begun ∨ k.unended = false ∨ k.closed = false

theorem Facts.Beyond.covers {q : Nat} {begun : Prop} {k l : Facts} {s : State}
    (h : k.Beyond q begun s)
    (hl : k.Covers l) : l.Beyond q begun s where
  passed := h.passed
  stuck hat := by
    rcases h.stuck hat with hbegun | hunended | hclosed
    · exact .inl hbegun
    · refine .inr (.inl (Bool.eq_false_iff.mpr fun hsame => ?_))
      rw [hl.unended hsame] at hunended
      cases hunended
    · refine .inr (.inr (Bool.eq_false_iff.mpr fun hsame => ?_))
      rw [hl.closed hsame] at hclosed
      cases hclosed

theorem Facts.Beyond.of_lt {q : Nat} {begun : Prop} {k : Facts} {s : State} (h : q < s.position) :
    k.Beyond q begun s where
  passed := Nat.le_of_lt h
  stuck hat := absurd hat (Nat.ne_of_gt h)

theorem Facts.Beyond.lt {q : Nat} {begun : Prop} {k : Facts} {s : State} (h : k.Beyond q begun s)
    (hbegun : begun -> s.position ≠ q) (hunended : k.unended = true) (hclosed : k.closed = true) :
    q < s.position := by
  apply Nat.lt_of_le_of_ne h.passed
  intro hat
  rcases h.stuck hat.symm with hbegun' | hended | hopen
  · exact hbegun hbegun' hat.symm
  · rw [hunended] at hended
    cases hended
  · rw [hclosed] at hopen
    cases hopen

theorem Facts.Beyond.after {q : Nat} {begun : Prop} {k : Facts} {s s' : State}
    (h : k.Beyond q begun s) (goal : Goal) (agreed : Bool) (honward : s.position ≤ s'.position)
    (hmoves : goal.mayBeEmpty = false -> s.position < s'.position) :
    (k.after goal agreed).Beyond q begun s' where
  passed := Nat.le_trans h.passed honward
  stuck hat := by
    have hpassed := h.passed
    have hempty : goal.mayBeEmpty = true := by
      cases hgoal : goal.mayBeEmpty with
      | true => rfl
      | false =>
          have hlt := hmoves hgoal
          omega
    rcases h.stuck (by omega) with hbegun | hunended | hclosed
    · exact .inl hbegun
    · exact .inr (.inl (by simp [Facts.after, hempty, hunended]))
    · exact .inr (.inr (by simp [Facts.after, hempty, hclosed]))

/-- The spans of statements that are begun at the position or behind it. -/
def FineFrom (q : Nat) (stream : TokenStream) (fine : Span → Prop) : Prop :=
  forall (c : Context) (first stop : Nat), c.stream = stream -> q ≤ first -> first < stop ->
    stop ≤ stream.size -> fine (c.spanOf first stop)

def EndsElsewhere (t : Token) (span : Span) : Prop :=
  span.finish ≠ (Span.ofToken t).finish

theorem fineFrom_endsElsewhere {q : Nat} {stream : TokenStream} (placed : stream.Placed)
    (hpos : 0 < q) (hle : q ≤ stream.size) :
    FineFrom q stream (EndsElsewhere (stream.get (q - 1))) := by
  rintro c first stop rfl hfirst hsome hstop
  exact finish_spanOf_ne placed hsome hstop (by omega) (by omega)

def EndsAt (stream : TokenStream) (p : Nat) (span : Span) : Prop :=
  p < stream.size ∧ span.finish = (Span.ofToken (stream.get p)).finish

theorem fineFrom_endsAt {stream : TokenStream} (placed : stream.Placed) :
    FineFrom 0 stream (fun span => exists p, EndsAt stream p span) := by
  rintro c first stop rfl _ hsome hstop
  exact ⟨stop - 1, by omega, finish_spanOf placed hsome hstop⟩

/-- What is reached at the position or behind it leaves the statements as they have to be. -/
def Strategy.KeepsStatements (q : Nat) (stream : TokenStream) (fine : Span → Prop)
    (reach : Strategy) :
    Prop :=
  forall (goal : Goal) (start' : Nat) (c : Context) (s : State) b s', c.Strict stream ->
    s.position ≤ stream.size -> q ≤ s.position ->
      reach (goal.placed ⟨0, 0⟩ start') c s = .ok b s' ->
        StatementsAre fine s.tree -> StatementsAre fine s'.tree

section

variable {q : Nat} {stream : TokenStream} {fine : Span → Prop} (ended : stream.Ended)
  (hfine : FineFrom q stream fine) {reach : Strategy} (hfacts : reach.KeepsFacts ⟨0, 0⟩ stream)
  (hstatements : reach.KeepsStatements q stream fine)

include ended in
theorem keepsStatements_newName {k : Facts} {start : Nat} {begun : Prop} {s s' : State}
    (hk : k.Holds ⟨0, 0⟩ stream start s) (hbeyond : k.Beyond q begun s) {c : Context}
    (hc : c.Strict stream) {what : Expectation} {b : NodeId}
    (hread : newName c what s = .ok b s') (hnone : StatementsAre fine s.tree) :
    Facts.read.Beyond q begun s' ∧ StatementsAre fine s'.tree := by
  rw [newName_eq] at hread
  split at hread
  next hkind =>
    cases hread
    have hnext := (hc.kind_eq s).trans hkind
    have hmoved := (hk.behind ended hc.stream hnext nofun).2
    have hpassed := hbeyond.passed
    refine ⟨.of_lt ?_, (hnone.moved c).added c s.position rfl⟩
    show q < (s.moved c).position
    omega
  next => cases hread

include ended in
theorem keepsStatements_expectClosing {k : Facts} {start : Nat} {begun : Prop} {s s' : State}
    (hk : k.Holds ⟨0, 0⟩ stream start s) (hbeyond : k.Beyond q begun s) {c : Context}
    (hc : c.Strict stream) {mark : Punctuator} {what : Expectation} {b : Unit}
    (hread : expectClosing c mark what s = .ok b s') (hnone : StatementsAre fine s.tree) :
    Facts.read.Beyond q begun s' ∧ StatementsAre fine s'.tree := by
  rw [expectClosing_eq_expect hc.recover] at hread
  rcases kind_of_expect_ok hread with ⟨hkind, rfl⟩
  have hnext := (hc.kind_eq s).trans hkind
  have hmoved := (hk.behind ended hc.stream hnext nofun).2
  have hpassed := hbeyond.passed
  exact ⟨.of_lt (by omega), hnone.moved c⟩

include ended hfine in
/-- The statement begins here, so that it does not end before a token has been read. -/
theorem keepsStatements_endedBy {α : Type} {front : Reader α} {c : Context}
    (hc : c.Strict stream) {ending : Ending} {node : α → Node} {m : Facts}
    (hmoved : m.moved = true) (hunended : m.unended = true) (hclosed : m.closed = true)
    {begun : Prop} {s s' : State} {b : NodeId} (hpassed : q ≤ s.position)
    (hfront : forall parts s₁, front s = .ok parts s₁ -> m.Holds ⟨0, 0⟩ stream s.position s₁ ∧
      m.Beyond q (q ≤ s.position) s₁ ∧ StatementsAre fine s₁.tree)
    (hread : endedBy c ending node front s = .ok b s') :
    Facts.ended.Beyond q begun s' ∧ StatementsAre fine s'.tree := by
  unfold endedBy at hread
  rw [bind_position] at hread
  rcases bind_ok_iff.mp hread with ⟨parts, s₁, hparts, hends⟩
  rcases bind_ok_iff.mp hends with ⟨_, s₂, hending, hadd⟩
  rw [addSince_eq] at hadd
  cases hadd
  rcases hfront parts s₁ hparts with ⟨hm, hbeyond, hnone⟩
  have hstart := hm.moved hmoved
  have hlt := hbeyond.lt (fun hbegun => by omega) hunended hclosed
  rcases Keeps.ending ended hc hm hmoved ending _ s₂ hending with ⟨_, hm₂, honward⟩
  have hnone₂ : StatementsAre fine s₂.tree := by
    rw [ending.tree_of_read_ok hending]
    exact hnone
  refine ⟨.of_lt (by show q < s₂.position; omega), hnone₂.add fun _ => ?_⟩
  exact hfine c s.position s₂.position hc.stream hpassed (Nat.lt_of_lt_of_le hstart honward)
    hm₂.bounded

include ended in
theorem keepsStatements_labeledOr {k l : Facts} {start : Nat} {begun : Prop} {s s' : State}
    (hk : k.Holds ⟨0, 0⟩ stream start s) (hbeyond : k.Beyond q begun s)
    (hnone : StatementsAre fine s.tree) {c : Context} (hc : c.Strict stream)
    {x : Nat → NodeId → Reader NodeId} {y : Reader NodeId} {b : NodeId}
    (hx : forall name s₁, Facts.read.Holds ⟨0, 0⟩ stream start s₁ ->
      Facts.read.Beyond q begun s₁ -> StatementsAre fine s₁.tree ->
        x s.position (Offset.id ⟨0, 0⟩ name) s₁ = .ok b s' ->
          l.Beyond q begun s' ∧ StatementsAre fine s'.tree)
    (hy : y s = .ok b s' -> l.Beyond q begun s' ∧ StatementsAre fine s'.tree)
    (hread : labeledOr c x y s = .ok b s') :
    l.Beyond q begun s' ∧ StatementsAre fine s'.tree := by
  rw [labeledOr_eq] at hread
  split at hread
  next hcolon =>
    rw [bind_newName] at hread
    split at hread
    next hkind =>
      rw [bind_advance] at hread
      rcases exists_id_of_le (d := ⟨0, 0⟩) s.tree.nextId (Nat.zero_le _) with ⟨name, hname⟩
      rcases hk.label ended hc hkind hcolon rfl with ⟨hlabel, hmoved⟩
      rw [hname] at hread
      have hpassed := hbeyond.passed
      exact hx name _ hlabel (.of_lt (by omega))
        (((hnone.moved c).added c s.position rfl).moved c) hread
    next => cases hread
  next => exact hy hread

include ended hfine hfacts hstatements

theorem Parallel.keepsStatements {α β : Type} {u : α → β} {k l : Facts} {σ : Scope} {x : Attempt α}
    {x' : Attempt β} (h : Parallel ⟨0, 0⟩ σ u k x x' l)
    (hlink : forall c c', σ.link c c' -> c'.Strict stream)
    (hstarts : forall p, 0 ≤ p -> exists start, σ.starts start p) {start : Nat} {begun : Prop}
    {s s' : State}
    {b : β} (hk : k.Holds ⟨0, 0⟩ stream start s) (hbegun : begun -> q ≤ start)
    (hbeyond : k.Beyond q begun s) (hread : x' reach s = .ok b s')
    (hnone : StatementsAre fine s.tree) :
    l.Beyond q begun s' ∧ StatementsAre fine s'.tree := by
  induction h generalizing start begun s s' with
  | pure v k a =>
      cases hread
      exact ⟨hbeyond, hnone⟩
  | bind hx _ ihx ihf =>
      rcases bind_ok_iff.mp hread with ⟨b₁, s₁, hxb, hfb⟩
      rcases hx.keeps ended hlink hstarts hfacts start s hk b₁ s₁ hxb with ⟨⟨a, rfl⟩, hm, _⟩
      rcases ihx hk hbegun hbeyond hxb hnone with ⟨hbeyond₁, hnone₁⟩
      exact ihf a hm hbegun hbeyond₁ hfb hnone₁
  | weaken _ hfrom hto ih =>
      rcases ih (hk.covers hfrom) hbegun (hbeyond.covers hfrom) hread hnone with ⟨hbeyond', hnone'⟩
      exact ⟨hbeyond'.covers hto, hnone'⟩
  | @position _ _ v k l f f' _ ih =>
      rcases hstarts s.position (Nat.zero_le _) with ⟨first, hfirst⟩
      exact ih first s.position hfirst hk hbegun hbeyond hread hnone
  | @look _ _ v k l m f f' c c' stays hc _ hml _ _ ihstay ihread =>
      have hnext := (hlink c c' hc).next_eq s
      have hread : f' (c'.next s) reach s = .ok b s' := hread
      rw [hnext] at hread
      cases hstays : stays (stream.get s.position) with
      | true =>
          exact ihstay (stream.get s.position) _ hstays (.refl _ _) hk.unseen hbegun
            (hbeyond.covers k.covers_unseen) hread hnone
      | false =>
          rcases ihread (stream.get s.position) _ hstays (.refl _ _) k (.refl k) hk.seeing hbegun
            ⟨hbeyond.passed, hbeyond.stuck⟩ hread hnone with ⟨hbeyond', hnone'⟩
          exact ⟨hbeyond'.covers hml, hnone'⟩
  | advance c c' kind hc hnext hend _ _ =>
      have hmoved := (hk.behind ended (hlink c c' hc).stream (hk.next kind hnext) hend).2
      have hpassed := hbeyond.passed
      have hread : Grammar.advance c' s = .ok b s' := hread
      rw [advance_eq] at hread
      cases hread
      exact ⟨.of_lt (by omega), hnone.moved c'⟩
  | add k c c' _ first node hc _ _ hplain =>
      have hread : addSince c' first _ s = .ok b s' := hread
      rw [addSince_eq] at hread
      cases hread
      exact ⟨⟨hbeyond.passed, hbeyond.stuck⟩,
        hnone.added c' first ((takesSemicolon_map _ node).trans hplain)⟩
  | @finish _ _ _ k m front front' c c' ending node node' hc hstill hfront hnode _ _ hmoved hunended
      hclosed ih =>
      have hhere : k.Holds ⟨0, 0⟩ stream s.position s := hk.restart hstill
      have hbeyond' : k.Beyond q (q ≤ s.position) s :=
        ⟨hbeyond.passed, fun _ => .inl hbeyond.passed⟩
      refine keepsStatements_endedBy ended hfine (hlink c c' hc) hmoved hunended hclosed
        hbeyond.passed (fun parts s₁ hparts => ?_) hread
      rcases hfront.keeps ended hlink hstarts hfacts s.position s hhere parts s₁ hparts with
        ⟨_, hm, _⟩
      exact ⟨hm, ih hhere id hbeyond' hparts hnone⟩
  | name k c c' what hc =>
      exact keepsStatements_newName ended hk hbeyond (hlink c c' hc) hread hnone
  | fail => exact absurd hread fail_ne_ok
  | closing k c c' mark what hc _ _ =>
      exact keepsStatements_expectClosing ended hk hbeyond (hlink c c' hc) hread hnone
  | closedByEnd v k l c c' atEnd a what fault hc =>
      simp only [if_neg ((hlink c c' hc).not_and_recover atEnd)] at hread
      exact absurd hread fail_ne_ok
  | missing c c' hc _ ih =>
      simp only [if_neg (hlink c c' hc).not_recover] at hread
      exact ih hk hbegun hbeyond hread hnone
  | @nested _ _ v k l c c' x x' hc _ ih =>
      have hread : Grammar.nested c' (fun deeper => x' deeper reach) s = .ok b s' := hread
      rw [nested_eq] at hread
      split at hread
      next => cases hread
      next => exact ih hk hbegun hbeyond hread hnone
  | @label k l c c' x x' y y' hc hnext _ _ _ ihx ihy =>
      rcases hstarts s.position (Nat.zero_le _) with ⟨first, hfirst⟩
      refine keepsStatements_labeledOr ended hk hbeyond hnone (hlink c c' hc)
        (fun name s₁ hlabel hbehind hnone₁ hread₁ => ?_) (fun hread₁ => ?_) hread
      · exact ihx first s.position name hfirst hlabel hbegun hbehind hread₁ hnone₁
      · exact ihy k { hk with next := by rintro kind ⟨rfl⟩; exact hk.next _ hnext } hbegun
          ⟨hbeyond.passed, hbeyond.stuck⟩ hread₁ hnone
  | @reach k goal first c c' agreed hc _ _ _ _ =>
      have hstrict := hlink c c' hc
      rcases hfacts goal first c' s hstrict (Nat.zero_le _) hk.bounded
        (Nat.zero_le _) b s' hread with
        ⟨_, hgoal, honward⟩
      refine ⟨hbeyond.after goal agreed honward fun hgoal' =>
        hgoal.moved (by simp [Facts.after, hgoal']), ?_⟩
      exact hstatements goal first c' s b s' hstrict hk.bounded hbeyond.passed hread hnone

end

section

variable {q : Nat} {stream : TokenStream} {fine : Span → Prop} (ended : stream.Ended)
  (hfine : FineFrom q stream fine) {reach : Strategy} (hfacts : reach.KeepsFacts ⟨0, 0⟩ stream)
  (hstatements : reach.KeepsStatements q stream fine) {c : Context} (hc : c.Strict stream)

include hfacts hstatements hc

theorem keepsStatements_goal (goal : Goal) (start' : Nat) {s s' : State}
    (hbound : s.position ≤ stream.size)
    (hpassed : q ≤ s.position) {b : (goal.placed ⟨0, 0⟩ start').Result}
    (hread : reach (goal.placed ⟨0, 0⟩ start') c s = .ok b s')
    (hnone : StatementsAre fine s.tree) :
    q ≤ s'.position ∧ s'.position ≤ stream.size ∧ StatementsAre fine s'.tree := by
  rcases hfacts goal start' c s hc (Nat.zero_le _) hbound (Nat.zero_le _) b s' hread with
    ⟨_, hgoal, honward⟩
  exact ⟨Nat.le_trans hpassed honward, hgoal.bounded,
    hstatements goal start' c s b s' hc hbound hpassed hread hnone⟩

theorem keepsStatements_operation (ended : stream.Ended) (floor first : Nat) (left : NodeId)
    {operator : BinaryOperator} {s s' : State} {id : NodeId} (hbound : s.position ≤ stream.size)
    (hpassed : q ≤ s.position) (hoperator : operatorAt? c (c.next s).kind = some operator)
    (hread : (advance c >>= fun _ => reach (.binary operator.precedence) c >>= fun right =>
      addSince c first (.binary operator left right) >>= fun joined =>
        reach (.binaryTail floor first joined) c) s = .ok id s')
    (hnone : StatementsAre fine s.tree) :
    StatementsAre fine s'.tree := by
  have hkind := hc.kind_eq s
  have hhere : Facts.start.Holds ⟨0, 0⟩ stream s.position s :=
    .here (Nat.zero_le _) hbound (Nat.zero_le _) rfl nofun nofun
  rcases hhere.behind ended hc.stream hkind (operatorAt?_ne_endOfText hoperator) with
    ⟨hbehind, hmoved⟩
  rw [bind_advance] at hread
  rcases bind_ok_iff.mp hread with ⟨right, s₁, hright, hjoin⟩
  rcases keepsStatements_goal hfacts hstatements hc (.binary operator.precedence) 0
    hbehind.bounded (by omega) hright
    (hnone.moved c) with ⟨hpassed₁, hbound₁, hnone₁⟩
  rcases bind_ok_iff.mp hjoin with ⟨joined, s₂, hadd, htail⟩
  rw [addSince_eq] at hadd
  cases hadd
  rcases exists_id_of_le (d := ⟨0, 0⟩) s₁.tree.nextId (Nat.zero_le _) with ⟨joined, hjoined⟩
  rw [hjoined] at htail
  exact (keepsStatements_goal hfacts hstatements hc (.binaryTail floor 0 joined) first
    (s := s₁.added c first (.binary operator left right)) hbound₁ hpassed₁ htail
    (hnone₁.added c first rfl)).2.2

include ended hfine

theorem keepsStatements_applyRule (goal : Goal) (start' : Nat) {s s' : State}
    (hbound : s.position ≤ stream.size) (hpassed : q ≤ s.position)
    {b : (goal.placed ⟨0, 0⟩ start').Result}
    (hread : applyRule reach (goal.placed ⟨0, 0⟩ start') c s = .ok b s')
    (hnone : StatementsAre fine s.tree) :
    StatementsAre fine s'.tree := by
  cases hgoal : goal.isParallel with
  | true =>
      have hlink : (Scope.strict stream).link c c := hc
      have hheld : goal.facts.Holds ⟨0, 0⟩ stream s.position s :=
        .goal goal (Nat.zero_le _) hbound (Nat.zero_le _)
      have hbeyond : goal.facts.Beyond q (q ≤ s.position) s := ⟨hpassed, fun _ => .inl hpassed⟩
      exact ((parallel_applyRule hlink (Scope.full_strict stream) goal start' hgoal
        fun _ => trivial).keepsStatements ended hfine hfacts hstatements (fun _ _ h => h)
          (fun _ _ => ⟨0, trivial⟩) hheld id hbeyond hread hnone).2
  | false =>
      cases goal with
      | branch =>
          have hread : branchRule reach c s = .ok b s' := hread
          rw [branchRule_eq_statement hc.recover] at hread
          exact (keepsStatements_goal hfacts hstatements hc .statement 0 hbound hpassed
            hread hnone).2.2
      | binary floor =>
          have hread : binaryRule reach floor c s = .ok b s' := hread
          unfold binaryRule at hread
          rw [bind_position] at hread
          rcases bind_ok_iff.mp hread with ⟨left, s₁, hunary, htail⟩
          rcases keepsStatements_goal hfacts hstatements hc .unary 0 hbound hpassed
            hunary hnone with
            ⟨hpassed₁, hbound₁, hnone₁⟩
          rcases exists_id_of_le (d := ⟨0, 0⟩) left (Nat.zero_le _) with ⟨left, rfl⟩
          exact (keepsStatements_goal hfacts hstatements hc (.binaryTail floor 0 left)
            s.position hbound₁ hpassed₁
            htail hnone₁).2.2
      | binaryTail floor first left =>
          have hread : binaryTailRule reach floor start' (Offset.id ⟨0, 0⟩ left) c s =
            .ok b s' := hread
          unfold binaryTailRule at hread
          rw [bind_peekKind] at hread
          cases hoperator : operatorAt? c (c.next s).kind with
          | none =>
              rw [hoperator] at hread
              cases hread
              exact hnone
          | some operator =>
              rw [hoperator] at hread
              dsimp only at hread
              split at hread
              next =>
                cases hread
                exact hnone
              next =>
                exact keepsStatements_operation hfacts hstatements hc ended floor start' _
                  hbound hpassed hoperator
                  hread hnone
      | _ => cases hgoal

end

theorem keepsStatements_grammar {q : Nat} {stream : TokenStream} {fine : Span → Prop}
    (ended : stream.Ended)
    (hfine : FineFrom q stream fine) (budget : Nat) :
    Strategy.KeepsStatements q stream fine (grammar budget) := by
  induction budget with
  | zero =>
      intro goal start' c s b s' _ _ _ hread
      exact absurd hread fail_ne_ok
  | succ budget ih =>
      intro goal start' c s b s' hc hbound hpassed hread hnone
      exact keepsStatements_applyRule ended hfine (keepsFacts_grammar ⟨0, 0⟩ ended budget) ih
        hc goal start'
        hbound hpassed hread hnone

end Grammar
end ScriptHints

import ScriptHints.Proofs.Parallel.Iterations

/-!
# Expressions that stand alone

In a tree that a strict reading builds, every expression stands alone, unless it is the name behind
a point or the key of a property. A rule that adds a node leaves it pending: it is the whole reading
of the goal that tells where the node stands. In a loop it is the way that the loop has gone so far.
-/

namespace ScriptHints

namespace Syntax

theorem Node.isExpression_map (f : NodeId → NodeId) (node : Node) :
    (node.map f).isExpression = node.isExpression := by
  cases node <;> rfl

def Node.nameOnly : Node → Option NodeId
  | .propertyAccess _ name => some name
  | .property key _ => some key
  | _ => none

def SyntaxTree.IsNameOnly (t : SyntaxTree) (id : NodeId) : Prop :=
  exists parent entry, t.get? parent = some entry ∧ entry.node.nameOnly = some id

theorem SyntaxTree.IsNameOnly.grown {t t' : SyntaxTree} {id : NodeId} (h : t.IsNameOnly id)
    (hextends : t.Extends t') : t'.IsNameOnly id := by
  rcases h with ⟨parent, entry, hentry, hname⟩
  rcases hextends.2 parent entry hentry with ⟨entry', hentry', hnode, _⟩
  refine ⟨parent, entry', hentry', ?_⟩
  rw [hnode]
  exact hname

end Syntax

namespace Grammar

open Syntax Token

/-!
## Growth by expressions that stand alone
-/

/-- The expressions that have been added stand alone, up to names and to those that are pending. -/
structure AddsStandalone (whole : TokenStream) (pending : List NodeId) (t t' : SyntaxTree) :
    Prop where
  grown : t.Extends t'
  alone (id : NodeId) (entry : Entry) : t'.get? id = some entry -> t.size ≤ id.index ->
    entry.node.isExpression = true -> id ∉ pending ->
      StandsAlone whole t' id ∨ t'.IsNameOnly id

namespace AddsStandalone

variable {whole : TokenStream} {pending pending' : List NodeId} {t t' t'' : SyntaxTree}

theorem refl (whole : TokenStream) (pending : List NodeId) (t : SyntaxTree) :
    AddsStandalone whole pending t t where
  grown := .refl t
  alone _ _ hentry hnew :=
    absurd (SyntaxTree.index_lt_of_get? hentry) (Nat.not_lt_of_le hnew)

theorem trans (h : AddsStandalone whole pending t t') (h' : AddsStandalone whole pending' t' t'')
    (hpending : forall id, id ∈ pending -> id ∉ pending' ->
      StandsAlone whole t'' id ∨ t''.IsNameOnly id) : AddsStandalone whole pending' t t'' where
  grown := h.grown.trans h'.grown
  alone := by
    intro id entry hentry hnew hexpression hother
    rcases Nat.lt_or_ge id.index t'.size with hold | hnew'
    · rcases SyntaxTree.exists_get?_of_index_lt hold with ⟨entry₁, hentry₁⟩
      rcases h'.grown.2 id entry₁ hentry₁ with ⟨entry₂, hentry₂, hnode, _⟩
      rw [hentry] at hentry₂
      cases hentry₂
      rw [hnode] at hexpression
      by_cases hmem : id ∈ pending
      · exact hpending id hmem hother
      · rcases h.alone id entry₁ hentry₁ hnew hexpression hmem with halone | hname
        · exact .inl (halone.grown h'.grown)
        · exact .inr (hname.grown h'.grown)
    · exact h'.alone id entry hentry hnew' hexpression hother

theorem resolved (h : AddsStandalone whole pending t t')
    (hpending : forall id, id ∈ pending -> StandsAlone whole t' id ∨ t'.IsNameOnly id) :
    AddsStandalone whole [] t t' :=
  h.trans (.refl whole [] t') fun id hid _ => hpending id hid

theorem add (whole : TokenStream) (t : SyntaxTree) (node : Node) (span : Span) :
    AddsStandalone whole [t.nextId] t (t.add node span) where
  grown := SyntaxTree.extends_add t node span
  alone := by
    intro id entry hentry hnew _ hother
    have hlt := SyntaxTree.index_lt_of_get? hentry
    rw [SyntaxTree.size_add] at hlt
    refine absurd (List.mem_singleton.mpr ?_) hother
    have hindex : id.index = t.size := by omega
    exact congrArg NodeId.mk hindex

theorem addPlain (whole : TokenStream) (t : SyntaxTree) {node : Node} (span : Span)
    (hnode : node.isExpression = false) : AddsStandalone whole [] t (t.add node span) where
  grown := SyntaxTree.extends_add t node span
  alone := by
    intro id entry hentry hnew hexpression _
    have hlt := SyntaxTree.index_lt_of_get? hentry
    rw [SyntaxTree.size_add] at hlt
    have hindex : id.index = t.size := by omega
    have hid : id = t.nextId := congrArg NodeId.mk hindex
    rw [SyntaxTree.get?_add, if_pos hid] at hentry
    cases hentry
    rw [hnode] at hexpression
    cases hexpression

end AddsStandalone

/-- The outcome of a reading whose expressions stand alone, up to those that are pending. -/
def ReadsStandalone (whole : TokenStream) {α : Type} (pending : α → List NodeId) (s : State)
    (r : EStateM.Result SyntaxError State α) : Prop :=
  forall a s', r = .ok a s' ->
    s'.position ≤ whole.size ∧ AddsStandalone whole (pending a) s.tree s'.tree

abbrev ReadsStandaloneAll (whole : TokenStream) {α : Type} (s : State)
    (r : EStateM.Result SyntaxError State α) : Prop :=
  ReadsStandalone whole (fun _ => []) s r

abbrev ReadsStandaloneRest (whole : TokenStream) (s : State)
    (r : EStateM.Result SyntaxError State NodeId) :
    Prop :=
  ReadsStandalone whole (fun id => [id]) s r

namespace ReadsStandalone

variable {whole : TokenStream} {α β : Type} {pending : α → List NodeId} {pending' : β → List NodeId}
  {s : State}

theorem ok {a : α} (hbound : s.position ≤ whole.size) :
    ReadsStandalone whole pending s (.ok a s) := by
  rintro _ _ ⟨rfl⟩
  exact ⟨hbound, .refl whole _ s.tree⟩

theorem error {e : SyntaxError} {s' : State} : ReadsStandalone whole pending s (.error e s') := by
  intro a s₁ heq
  cases heq

theorem same {r : EStateM.Result SyntaxError State α}
    (h : forall a s', r = .ok a s' -> s'.position ≤ whole.size ∧ s'.tree = s.tree) :
    ReadsStandalone whole pending s r := by
  intro a s' heq
  rcases h a s' heq with ⟨hbound, htree⟩
  refine ⟨hbound, ?_⟩
  rw [htree]
  exact .refl whole _ s.tree

theorem bind {x : Reader α} {f : α → Reader β} (hx : ReadsStandaloneAll whole s (x s))
    (hf : forall a s₁, x s = .ok a s₁ -> s₁.position ≤ whole.size ->
      ReadsStandalone whole pending' s₁ (f a s₁)) :
      ReadsStandalone whole pending' s ((x >>= f) s) := by
  intro b s' heq
  rcases bind_ok_iff.mp heq with ⟨a, s₁, hxa, hfb⟩
  rcases hx a s₁ hxa with ⟨hbound₁, hadds⟩
  rcases hf a s₁ hxa hbound₁ b s' hfb with ⟨hbound, hadds'⟩
  exact ⟨hbound, hadds.trans hadds' fun id hid => by cases hid⟩

theorem bindNamed {x : Reader α} {f : α → Reader β} (hx : ReadsStandalone whole pending s (x s))
    (hf : forall a s₁, x s = .ok a s₁ -> s₁.position ≤ whole.size ->
      ReadsStandalone whole pending' s₁ (f a s₁))
    (hnamed : forall a s₁ b s', x s = .ok a s₁ -> f a s₁ = .ok b s' ->
      forall id, id ∈ pending a -> s'.tree.IsNameOnly id) :
    ReadsStandalone whole pending' s ((x >>= f) s) := by
  intro b s' heq
  rcases bind_ok_iff.mp heq with ⟨a, s₁, hxa, hfb⟩
  rcases hx a s₁ hxa with ⟨hbound₁, hadds⟩
  rcases hf a s₁ hxa hbound₁ b s' hfb with ⟨hbound, hadds'⟩
  exact ⟨hbound, hadds.trans hadds' fun id hid _ => .inr (hnamed a s₁ b s' hxa hfb id hid)⟩

theorem map {x : Reader α} (f : α → β) (hx : ReadsStandaloneAll whole s (x s)) :
    ReadsStandaloneAll whole s ((f <$> x) s) := by
  intro b s' heq
  rcases map_ok_iff.mp heq with ⟨a, hxa, _⟩
  exact hx a s' hxa

theorem resolve {r : EStateM.Result SyntaxError State NodeId} (h : ReadsStandaloneRest whole s r)
    (halone : forall id s', r = .ok id s' -> StandsAlone whole s'.tree id) :
    ReadsStandaloneAll whole s r := by
  intro id s' heq
  rcases h id s' heq with ⟨hbound, hadds⟩
  refine ⟨hbound, hadds.resolved ?_⟩
  intro other hother
  rw [List.mem_singleton.mp hother]
  exact .inl (halone id s' heq)

theorem addSince (c : Context) (start : Nat) (node : Node) (hbound : s.position ≤ whole.size) :
    ReadsStandaloneRest whole s (Grammar.addSince c start node s) := by
  rw [addSince_eq]
  rintro _ _ ⟨rfl⟩
  exact ⟨hbound, .add whole s.tree node _⟩

theorem addPlain (c : Context) (start : Nat) {node : Node} (hnode : node.isExpression = false)
    (hbound : s.position ≤ whole.size) :
    ReadsStandaloneAll whole s (Grammar.addSince c start node s) := by
  rw [addSince_eq]
  rintro _ _ ⟨rfl⟩
  exact ⟨hbound, .addPlain whole s.tree _ hnode⟩

theorem moved {c : Context} (hc : c.stream = whole) (hbound : s.position ≤ whole.size) :
    (s.moved c).position ≤ whole.size := by
  unfold State.moved
  rw [hc]
  split
  next hlt => exact hlt
  next => exact hbound

theorem advance {c : Context} (hc : c.stream = whole) (hbound : s.position ≤ whole.size) :
    ReadsStandaloneAll whole s (Grammar.advance c s) := by
  rw [advance_eq]
  refine .same ?_
  rintro _ _ ⟨rfl⟩
  exact ⟨moved hc hbound, s.tree_moved c⟩

theorem expect {c : Context} (hc : c.stream = whole) (hbound : s.position ≤ whole.size)
    (mark : Punctuator) (what : Expectation) :
    ReadsStandaloneAll whole s (Grammar.expect c mark what s) := by
  rw [expect_eq]
  split
  next => exact advance hc hbound
  next => exact .error

theorem closing {c : Context} (hc : c.Strict whole) (hbound : s.position ≤ whole.size)
    (mark : Punctuator) (what : Expectation) :
    ReadsStandaloneAll whole s (expectClosing c mark what s) := by
  rw [expectClosing_eq_expect hc.recover]
  exact expect hc.stream hbound mark what

theorem ending {c : Context} (hc : c.stream = whole) (hbound : s.position ≤ whole.size)
    (ending : Ending) : ReadsStandaloneAll whole s (ending.read c s) := by
  by_cases hmark : (c.next s).kind = .punctuator .semicolon
  · rw [ending.read_of_semicolon hmark]
    exact advance hc hbound
  · refine .same fun b s' heq => ?_
    rw [((ending.read_ok_iff hmark).mp heq).2]
    exact ⟨hbound, rfl⟩

end ReadsStandalone

/-!
## Strategies
-/

/-- At every goal all expressions stand alone, and so they do in the rest of a loop. -/
structure Strategy.ReadsStandalone (whole : TokenStream) (reach : Strategy) : Prop where
  goals (goal : Goal) (c : Context) (s : State) : c.Strict whole -> s.position ≤ whole.size ->
    goal.isTail = false -> (goal.isInner = true -> 0 < c.depth) ->
    ReadsStandaloneAll whole s (reach goal c s)
  loops (loop : Loop) (c : Context) (s₀ s : State) (left : NodeId) : c.Strict whole ->
    loop.depth ≤ c.depth -> s₀.position < s.position -> s.position ≤ whole.size ->
      loop.GoesOn whole c s₀ s left ->
      ReadsStandaloneAll whole s (loop.rest reach s₀.position left c s)

theorem leaf_eq (c : Context) (node : Node) (s : State) :
    (advance c >>= fun _ => addSince c s.position node) s =
      .ok s.tree.nextId ((s.moved c).added c s.position node) := by
  rw [bind_advance, addSince_eq, s.tree_moved c]

theorem frontRule_eq_leaf (reach : Strategy) {c : Context} {s : State} {node : Node}
    (hnode : operand? (c.next s) = some node) :
    frontRule reach c s = .ok s.tree.nextId ((s.moved c).added c s.position node) := by
  have hnew : (c.next s).kind ≠ .keyword .newWord := by
    intro hnew
    unfold operand? keyLiteral? at hnode
    rw [hnew] at hnode
    cases hnode
  unfold frontRule
  rw [bind_peekKind, if_neg hnew]
  unfold operandRule
  rw [bind_position, bind_peek, hnode]
  exact leaf_eq c node s

section

variable {whole : TokenStream} (ended : whole.Ended) {c : Context} (hc : c.Strict whole) {s : State}
  (hbound : s.position ≤ whole.size)
include ended hc hbound

theorem standsAlone_operand {node : Node} (hnode : operand? (c.next s) = some node) :
    StandsAlone whole ((s.moved c).added c s.position node).tree s.tree.nextId := by
  have hkind : (whole.get s.position).kind = (c.next s).kind := by
    rw [Context.next, hc.stream]
  have hheld : Facts.start.Holds ⟨0, 0⟩ whole s.position s :=
    .here (Nat.zero_le _) hbound (Nat.zero_le _) rfl (by intro h; cases h)
      (by intro kind h; cases h)
  rcases hheld.behind ended hc.stream hkind (operand?_ne_endOfText hnode) with ⟨hbehind, hmoved⟩
  have hnext : c.deeper.next s = c.next s := rfl
  rw [← hnext] at hnode
  have hread := frontRule_eq_leaf (grammar 0) hnode
  have hdeeper : c.deeper.Strict whole := ⟨hc.stream, hc.recover⟩
  have hdepth : (Loop.accesses false).depth ≤ c.deeper.depth := by
    show 1 ≤ c.depth + 1
    omega
  have hgoes := Loop.goesOn_front ended hdeeper (.accesses false) hdepth hbound hread
  refine hgoes.standsAlone ?_ hbehind.bounded
  show s.position < (s.moved c).position
  omega

theorem ReadsStandalone.newName (what : Expectation) :
    ReadsStandaloneAll whole s (Grammar.newName c what s) := by
  rw [newName_eq]
  split
  next hkind =>
    rw [← leaf_eq]
    refine .resolve ?_ fun id s' heq => ?_
    · exact (ReadsStandalone.advance hc.stream hbound).bind fun _ s₁ _ hbound₁ =>
        .addSince c _ _ hbound₁
    · rw [leaf_eq] at heq
      cases heq
      refine standsAlone_operand ended hc hbound ?_
      unfold operand?
      rw [hkind]
  next => exact .error

end

/-!
## Rules that add no expression
-/

theorem Goal.isTail_of_isInner {goal : Goal} (h : goal.isInner = false) : goal.isTail = false := by
  cases goal <;> first | rfl | cases h

theorem Goal.isOperation_of_isInner {goal : Goal} (h : goal.isInner = false) :
    goal.isOperation = false := by
  cases goal <;> first | rfl | cases h

namespace Context.Strict

variable {whole : TokenStream} {c : Context} (h : c.Strict whole)
include h

theorem allowingIn : c.allowingIn.Strict whole :=
  ⟨h.stream, h.recover⟩

theorem forbiddingIn : c.forbiddingIn.Strict whole :=
  ⟨h.stream, h.recover⟩

theorem deeper : c.deeper.Strict whole :=
  ⟨h.stream, h.recover⟩

end Context.Strict

def Scope.plain (whole : TokenStream) : Scope where
  link _ c' := c'.Strict whole
  allowingIn h := h.allowingIn
  forbiddingIn h := h.forbiddingIn
  deeper h := h.deeper
  starts _ _ := True
  adds node := node.isExpression = false
  reaches goal := goal.isInner = false
  noOperation _ h := Goal.isOperation_of_isInner h

theorem Scope.plain_plain (whole : TokenStream) : (Scope.plain whole).Plain where
  adds _ h := h
  reaches _ h := h

theorem Goal.isTail_placed (d : Offset) (start : Nat) (goal : Goal) :
    (goal.placed d start).isTail = goal.isTail := by
  cases goal <;> rfl

theorem Goal.isInner_placed (d : Offset) (start : Nat) (goal : Goal) :
    (goal.placed d start).isInner = goal.isInner := by
  cases goal <;> rfl

section

variable {whole : TokenStream} (ended : whole.Ended) {reach : Strategy} {d : Offset}
  (hfacts : reach.KeepsFacts d whole) (halone : reach.ReadsStandalone whole)
include ended hfacts halone

theorem Parallel.readsStandalone {α β : Type} {u : α → β} {k l : Facts} {x : Attempt α}
    {x' : Attempt β}
    (h : Parallel d (Scope.plain whole) u k x x' l) (start : Nat) (s : State)
    (hk : k.Holds d whole start s) : ReadsStandaloneAll whole s (x' reach s) := by
  have hlink (c c' : Context) (h : (Scope.plain whole).link c c') : c'.Strict whole := h
  have hstarts (p : Nat) (_ : d.tokens ≤ p) : exists first, (Scope.plain whole).starts first p :=
    ⟨0, trivial⟩
  induction h generalizing s with
  | pure v k a => exact .ok hk.bounded
  | bind hx _ ihx ihf =>
      refine (ihx s hk).bind fun b s₁ hxb _ => ?_
      rcases hx.keeps ended hlink hstarts hfacts start s hk b s₁ hxb with ⟨⟨a, rfl⟩, hm, _⟩
      exact ihf a s₁ hm
  | weaken _ hfrom _ ih => exact ih s (hk.covers hfrom)
  | position _ ih => exact ih 0 s.position trivial s hk
  | @look _ _ v k l m f f' c c' stays hc _ _ _ _ ihstay ihread =>
      have hnext := (hlink c c' hc).next_eq s
      show ReadsStandaloneAll whole s (f' (c'.next s) reach s)
      rw [hnext]
      cases hstays : stays (whole.get s.position) with
      | true => exact ihstay (whole.get s.position) _ hstays (.refl _ _) s hk.unseen
      | false => exact ihread (whole.get s.position) _ hstays (.refl _ _) k (.refl k) s hk.seeing
  | advance c c' kind hc _ _ _ _ => exact .advance (hlink c c' hc).stream hk.bounded
  | add k c c' _ first node hc _ hnode _ =>
      refine .addPlain c' first ?_ hk.bounded
      rw [Node.isExpression_map]
      exact hnode
  | @finish _ _ _ k m front front' c c' ending node node' hc _ hfront hnode _ hplain
      hmoved _ _ ih =>
      have hstrict := hlink c c' hc
      show ReadsStandaloneAll whole s (endedBy c' ending node' (front' reach) s)
      unfold endedBy
      rw [bind_position]
      refine (ih s hk).bind fun parts s₁ hparts hbound₁ => ?_
      refine (ReadsStandalone.ending hstrict.stream hbound₁ ending).bind fun _ s₂ _ hbound₂ => ?_
      rcases hfront.keeps ended hlink hstarts hfacts start s hk parts s₁ hparts with
        ⟨⟨a, rfl⟩, _, _⟩
      refine .addPlain c' s.position ?_ hbound₂
      rw [hnode, Node.isExpression_map]
      exact hplain a
  | name k c c' what hc => exact .newName ended (hlink c c' hc) hk.bounded what
  | fail => exact .error
  | closing k c c' mark what hc _ _ => exact .closing (hlink c c' hc) hk.bounded mark what
  | closedByEnd v k l c c' atEnd a what fault hc =>
      simp only [if_neg ((hlink c c' hc).not_and_recover atEnd)]
      exact .error
  | missing c c' hc _ ih =>
      simp only [if_neg (hlink c c' hc).not_recover]
      exact ih s hk
  | @nested _ _ v k l c c' x x' hc _ ih =>
      show ReadsStandaloneAll whole s (Grammar.nested c' (fun deeper => x' deeper reach) s)
      rw [nested_eq]
      split
      next => exact .error
      next => exact ih s hk
  | @label k l c c' x x' y y' hc hnext _ _ _ ihx ihy =>
      have hstrict := hlink c c' hc
      show ReadsStandaloneAll whole s (labeledOr c' (fun start name => x' start name reach)
        (y' reach) s)
      rw [labeledOr_eq]
      split
      next hcolon =>
        refine (ReadsStandalone.newName ended hstrict hk.bounded .label).bind
          fun name s₁ hname hbound₁ => ?_
        refine (ReadsStandalone.advance hstrict.stream hbound₁).bind fun _ s₂ hmoved hbound₂ => ?_
        rw [newName_eq] at hname
        split at hname
        next hkind =>
          cases hname
          rw [advance_eq] at hmoved
          cases hmoved
          rcases exists_id_of_le s.tree.nextId hk.nodes with ⟨name, hname⟩
          rcases hk.label ended hstrict hkind hcolon rfl with ⟨hread, _⟩
          have hbehind := ihx 0 s.position name trivial _ hread
          rw [← hname] at hbehind
          exact hbehind
        next => cases hname
      next =>
        exact ihy k s { hk with next := by rintro kind ⟨rfl⟩; exact hk.next _ hnext }
  | reach goal first c c' agreed hc hinner _ _ _ =>
      have hinner : goal.isInner = false := hinner
      refine halone.goals (goal.placed d first) c' s (hlink c c' hc) hk.bounded ?_ fun h => ?_
      · rw [Goal.isTail_placed]
        exact Goal.isTail_of_isInner hinner
      · rw [Goal.isInner_placed, hinner] at h
        cases h

end

end Grammar
end ScriptHints

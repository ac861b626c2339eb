import ScriptHints.Proofs.Parallel.Facts
import ScriptHints.Proofs.Syntax.Renaming
import ScriptHints.Proofs.Token.MemberNames
import ScriptHints.Proofs.Token.Terminated

/-!
# Readings behind one word

Two streams begin with a name, a point and a word, and differ in that word alone, if places are
not compared. Strict readings that begin behind the word look at the same tokens and add the same
nodes, so that they end in the same way, with the word as the only difference of their trees.
-/

namespace ScriptHints
namespace Grammar

open Syntax Token

/-!
## Substituted contexts, states and outcomes
-/

/-- Contexts of strict readings whose tokens differ in the word behind the first point. -/
structure Context.Substituted (object name other : String) (c c' : Context) : Prop where
  strict : c.options.recover = false
  options : c'.options = c.options
  allowIn : c'.allowIn = c.allowIn
  depth : c'.depth = c.depth
  tokens : exists more, c.stream.unplaced = memberTokens object name ++ more ∧
    c'.stream.unplaced = memberTokens object other ++ more ∧ more ≠ []

/-- The property access that both readings have begun with: the first three nodes. -/
structure State.Substituted (object name other : String) (s s' : State) : Prop where
  position : s'.position = s.position
  behind : 3 ≤ s.position
  tree : s.tree.Renamed ⟨1⟩ name other s'.tree
  object : s.tree.node ⟨0⟩ = .ok (.identifier object)
  access : s.tree.node ⟨2⟩ = .ok (.propertyAccess ⟨0⟩ ⟨1⟩)

inductive SubstitutedResults (object name other : String) {α β : Type} (v : α → β) :
    EStateM.Result SyntaxError State α → EStateM.Result SyntaxError State β → Prop where
  | ok {s s' : State} (a : α) :
      s.Substituted object name other s' ->
      SubstitutedResults object name other v (.ok a s) (.ok (v a) s')
  | error (e e' : SyntaxError) (s s' : State) :
      SubstitutedResults object name other v (.error e s) (.error e' s')

def atFront : Offset :=
  ⟨0, 0⟩

theorem atFront_id : atFront.id = id :=
  funext fun i => Offset.id_zero 0 i

variable {object name other : String}

namespace Context.Substituted

variable {c c' : Context}

theorem allowingIn (h : c.Substituted object name other c') :
    c.allowingIn.Substituted object name other c'.allowingIn :=
  { h with allowIn := rfl }

theorem forbiddingIn (h : c.Substituted object name other c') :
    c.forbiddingIn.Substituted object name other c'.forbiddingIn :=
  { h with allowIn := rfl }

theorem deeper (h : c.Substituted object name other c') :
    c.deeper.Substituted object name other c'.deeper :=
  { h with depth := congrArg (· + 1) h.depth }

theorem strict' (h : c.Substituted object name other c') : c'.options.recover = false :=
  (congrArg Options.recover h.options).trans h.strict

theorem size (h : c.Substituted object name other c') : c'.stream.size = c.stream.size := by
  rcases h.tokens with ⟨more, hmore, hmore', _⟩
  have hlength := TokenStream.length_unplaced c.stream
  have hlength' := TokenStream.length_unplaced c'.stream
  rw [hmore, List.length_append] at hlength
  rw [hmore', List.length_append] at hlength'
  exact Nat.succ.inj (hlength'.symm.trans hlength)

theorem get_eq (h : c.Substituted object name other c') {p : Nat} (hp : p ≠ 2) :
    Unplaced.of (c'.stream.get p) = Unplaced.of (c.stream.get p) := by
  rcases h.tokens with ⟨more, hmore, hmore', hsome⟩
  have hlast (front : List Unplaced) : (front ++ more).getLast? = more.getLast? := by
    rcases List.exists_cons_of_ne_nil hsome with ⟨t, ts, rfl⟩
    exact List.getLast?_append_cons ..
  have hstop : Unplaced.of c'.stream.stop = Unplaced.of c.stream.stop := by
    have hend := TokenStream.getLast?_unplaced c.stream
    have hend' := TokenStream.getLast?_unplaced c'.stream
    rw [hmore, hlast] at hend
    rw [hmore', hlast, hend] at hend'
    exact (Option.some.inj hend').symm
  rw [TokenStream.of_get, TokenStream.of_get, hmore, hmore', hstop]
  rcases p with _ | _ | _ | p
  · rfl
  · rfl
  · exact absurd rfl hp
  · rfl

theorem get_front (h : c.Substituted object name other c') :
    Unplaced.of (c.stream.get 0) = ⟨.identifier, object, false⟩ ∧
      Unplaced.of (c.stream.get 1) = ⟨.punctuator .dot, ".", false⟩ ∧
      Unplaced.of (c.stream.get 2) = ⟨kindOfWord name, name, false⟩ ∧
      Unplaced.of (c'.stream.get 2) = ⟨kindOfWord other, other, false⟩ := by
  rcases h.tokens with ⟨more, hmore, hmore', _⟩
  rw [TokenStream.of_get, TokenStream.of_get, TokenStream.of_get, TokenStream.of_get, hmore, hmore']
  exact ⟨rfl, rfl, rfl, rfl⟩

theorem lt_size (h : c.Substituted object name other c') : 2 < c.stream.size := by
  rcases h.tokens with ⟨more, hmore, _, hsome⟩
  have hlength := TokenStream.length_unplaced c.stream
  have hpositive := List.length_pos_iff.mpr hsome
  rw [hmore, List.length_append] at hlength
  have hfront : (memberTokens object name).length = 3 := rfl
  omega

end Context.Substituted

namespace State.Substituted

variable {c c' : Context} {s s' : State} (h : s.Substituted object name other s')
  (hc : c.Substituted object name other c')

/-!
## Steps
-/

section

include h hc

theorem next_eq : Unplaced.of (c'.next s') = Unplaced.of (c.next s) := by
  unfold Context.next
  rw [h.position]
  have hbehind := h.behind
  exact hc.get_eq (by omega)

theorem kind_next : (c'.next s').kind = (c.next s).kind :=
  congrArg Unplaced.kind (h.next_eq hc)

theorem lexeme_next : (c'.next s').lexeme = (c.next s).lexeme :=
  congrArg Unplaced.lexeme (h.next_eq hc)

theorem alike_next (k : Facts) : k.Alike (c.next s) (c'.next s') where
  kind := h.kind_next hc
  lexeme := h.lexeme_next hc
  newlineBefore _ := congrArg Unplaced.newlineBefore (h.next_eq hc)

theorem moved : (s.moved c).Substituted object name other (s'.moved c') := by
  have hiff : s'.position < c'.stream.size ↔ s.position < c.stream.size := by
    rw [h.position, hc.size]
  unfold State.moved
  by_cases hlt : s.position < c.stream.size
  · rw [if_pos hlt, if_pos (hiff.mpr hlt)]
    exact {
      position := congrArg (· + 1) h.position
      behind := Nat.le_succ_of_le h.behind
      tree := h.tree
      object := h.object
      access := h.access }
  · rw [if_neg hlt, if_neg fun hlt' => hlt (hiff.mp hlt')]
    exact h

end

include h in
theorem added (start start' : Nat) (node : Node) :
    (s.added c start node).Substituted object name other (s'.added c' start' node) where
  position := h.position
  behind := h.behind
  tree := h.tree.add node _ _
  object := (s.tree.extends_add node _).node_eq h.object
  access := (s.tree.extends_add node _).node_eq h.access

include h in
theorem addSince (start start' : Nat) (node : Node) :
    SubstitutedResults object name other atFront.id (Grammar.addSince c start node s)
      (Grammar.addSince c' start' (node.map atFront.id) s') := by
  rw [addSince_eq, addSince_eq, h.tree.nextId, atFront_id, Node.map_id]
  exact .ok _ (h.added start start' node)

section

include h hc

theorem expect (mark : Punctuator) (what : Expectation) :
    SubstitutedResults object name other id (Grammar.expect c mark what s)
      (Grammar.expect c' mark what s') := by
  rw [expect_eq, expect_eq, h.kind_next hc]
  split
  next => exact .ok () (h.moved hc)
  next => exact .error _ _ s s'

theorem expectClosing (mark : Punctuator) (what : Expectation) :
    SubstitutedResults object name other id (Grammar.expectClosing c mark what s)
      (Grammar.expectClosing c' mark what s') := by
  rw [expectClosing_eq_expect hc.strict, expectClosing_eq_expect hc.strict']
  exact h.expect hc mark what

theorem newName (what : Expectation) :
    SubstitutedResults object name other atFront.id (Grammar.newName c what s)
      (Grammar.newName c' what s') := by
  rw [newName_eq, newName_eq, h.kind_next hc, h.lexeme_next hc, h.tree.nextId, atFront_id]
  split
  next => exact .ok _ ((h.moved hc).added _ _ _)
  next => exact .error _ _ s s'

theorem ending (ending : Ending) :
    SubstitutedResults object name other id (ending.read c s) (ending.read c' s') := by
  have halike := h.alike_next hc .ended
  cases ending with
  | required what =>
      have hgrants : Grants (c'.next s') ↔ Grants (c.next s) :=
        halike.allows_iff rfl (.required what)
      show SubstitutedResults object name other id (endStatement c what s) (endStatement c' what s')
      rw [endStatement_eq, endStatement_eq, halike.kind]
      simp only [hgrants]
      split
      next => exact .ok () (h.moved hc)
      next =>
        split
        next => exact .ok () h
        next => exact .error _ _ s s'
  | optional =>
      rw [optional_read_eq, optional_read_eq, halike.kind]
      split
      next => exact .ok () (h.moved hc)
      next => exact .ok () h

end

end State.Substituted

theorem SubstitutedResults.bind {α β γ δ : Type} {u : α → β} {v : γ → δ} {x : Reader α}
    {x' : Reader β}
    {f : α → Reader γ} {f' : β → Reader δ} {s s' : State}
    (hx : SubstitutedResults object name other u (x s) (x' s'))
    (hf : forall a s₁ s₁', s₁.Substituted object name other s₁' ->
      SubstitutedResults object name other v (f a s₁) (f' (u a) s₁')) :
    SubstitutedResults object name other v ((x >>= f) s) ((x' >>= f') s') := by
  cases heq : x s with
  | ok a s₁ =>
      cases heq' : x' s' with
      | ok b s₁' =>
          rw [heq, heq'] at hx
          rw [bind_of_ok heq, bind_of_ok heq']
          cases hx with
          | ok a h => exact hf a s₁ s₁' h
      | error e' s₁' =>
          rw [heq, heq'] at hx
          cases hx
  | error e s₁ =>
      cases heq' : x' s' with
      | ok b s₁' =>
          rw [heq, heq'] at hx
          cases hx
      | error e' s₁' =>
          rw [bind_of_error heq, bind_of_error heq']
          exact .error e e' s₁ s₁'

theorem Context.Substituted.nested {α β : Type} {v : α → β} {c c' : Context}
    (h : c.Substituted object name other c') {read : Context → Reader α}
    {read' : Context → Reader β}
    {s s' : State}
    (hread : SubstitutedResults object name other v (read c.deeper s) (read' c'.deeper s')) :
    SubstitutedResults object name other v (Grammar.nested c read s)
    (Grammar.nested c' read' s') := by
  rw [nested_eq, nested_eq]
  by_cases hdeep : nestingLimit ≤ c.depth
  · rw [if_pos hdeep, if_pos (by rw [h.depth]; exact hdeep)]
    exact .error _ _ s s'
  · rw [if_neg hdeep, if_neg (by rw [h.depth]; exact hdeep)]
    exact hread

/-!
## Rules behind the word
-/

def Strategy.Substituted (object name other : String) (reach reach' : Strategy) : Prop :=
  forall (goal : Goal) (start' : Nat) (c c' : Context) (s s' : State),
    c.Substituted object name other c' -> s.Substituted object name other s' ->
      SubstitutedResults object name other (goal.placedResult atFront start') (reach goal c s)
        (reach' (goal.placed atFront start') c' s')

def Scope.substitution (object name other : String) : Scope where
  link := Context.Substituted object name other
  allowingIn := Context.Substituted.allowingIn
  forbiddingIn := Context.Substituted.forbiddingIn
  deeper := Context.Substituted.deeper
  starts _ _ := True
  adds _ := True
  reaches goal := goal.isOperation = false
  noOperation _ h := h

theorem Scope.full_substitution (object name other : String) :
    (Scope.substitution object name other).Full where
  adds _ := trivial
  reaches _ h := h

section

variable {reach reach' : Strategy}

theorem Parallel.substituted {α β : Type} {v : α → β} {k l : Facts} {x : Attempt α} {x' : Attempt β}
    (h : Parallel atFront (Scope.substitution object name other) v k x x' l)
    (hreach : reach.Substituted object name other reach') (s s' : State)
    (hs : s.Substituted object name other s') :
    SubstitutedResults object name other v (x reach s) (x' reach' s') := by
  induction h generalizing s s' with
  | pure v k a => exact .ok a hs
  | bind _ _ ihx ihf => exact (ihx s s' hs).bind fun a s₁ s₁' h₁ => ihf a s₁ s₁' h₁
  | weaken _ _ _ ih => exact ih s s' hs
  | @position _ _ v k l f f' _ ih =>
      show SubstitutedResults object name other v (f s.position reach s) (f' s'.position reach' s')
      exact ih s.position s'.position trivial s s' hs
  | @look _ _ v k l m f f' c c' stays hc _ _ _ _ ihstay ihread =>
      show SubstitutedResults object name other v (f (c.next s) reach s) (f' (c'.next s') reach' s')
      have halike := hs.alike_next hc k
      cases hstays : stays (c'.next s') with
      | true => exact ihstay _ _ hstays (.alike halike) s s' hs
      | false => exact ihread _ _ hstays halike k (.refl k) s s' hs
  | advance c c' kind hc _ _ _ _ => exact .ok () (hs.moved hc)
  | add k c c' start start' node _ _ _ _ => exact hs.addSince start start' node
  | @finish _ _ _ k m front front' c c' ending node node' hc _ _ hnode _ _ _ _ _ ih =>
      show SubstitutedResults object name other atFront.id (endedBy c ending node (front reach) s)
        (endedBy c' ending node' (front' reach') s')
      unfold endedBy
      rw [bind_position, bind_position]
      refine (ih s s' hs).bind fun parts s₁ s₁' h₁ => ?_
      refine (h₁.ending hc ending).bind fun _ s₂ s₂' h₂ => ?_
      rw [hnode]
      exact h₂.addSince s.position s'.position (node parts)
  | name k c c' what hc => exact hs.newName hc what
  | fail v k l c c' fault hc => exact .error _ _ s s'
  | closing k c c' mark what hc _ _ => exact hs.expectClosing hc mark what
  | closedByEnd v k l c c' atEnd a what fault hc =>
      simp only [hc.strict, hc.strict', Bool.and_false, Bool.false_eq_true, if_false]
      exact .error _ _ s s'
  | missing c c' hc _ ih =>
      simp only [hc.strict, hc.strict', Bool.false_eq_true, if_false]
      exact ih s s' hs
  | @nested _ _ v k l c c' x x' hc _ ih =>
      show SubstitutedResults object name other v
        (Grammar.nested c (fun deeper => x deeper reach) s)
        (Grammar.nested c' (fun deeper => x' deeper reach') s')
      exact hc.nested (ih s s' hs)
  | @label k l c c' x x' y y' hc _ _ _ _ ihx ihy =>
      show SubstitutedResults object name other atFront.id
        (labeledOr c (fun start name => x start name reach) (y reach) s)
        (labeledOr c' (fun start name => x' start name reach') (y' reach') s')
      have hbehind := hs.behind
      have hcolon : (c'.stream.get (s'.position + 1)).kind =
        (c.stream.get (s.position + 1)).kind := by
        rw [hs.position]
        exact congrArg Unplaced.kind (hc.get_eq (by omega))
      rw [labeledOr_eq, labeledOr_eq, hcolon]
      split
      next =>
        refine (hs.newName hc .label).bind fun label s₁ s₁' h₁ => ?_
        rw [bind_advance, bind_advance]
        exact ihx s.position s'.position label trivial _ _ (h₁.moved hc)
      next => exact ihy k s s' hs
  | reach goal start' c c' agreed hc _ _ _ _ => exact hreach goal start' c c' s s' hc hs

variable (hreach : reach.Substituted object name other reach') {c c' : Context}
  (hc : c.Substituted object name other c') {s s' : State} (hs : s.Substituted object name other s')
include hreach hc hs

theorem substituted_binaryRule (floor : Nat) :
    SubstitutedResults object name other atFront.id (binaryRule reach floor c s)
      (binaryRule reach' floor c' s') := by
  unfold binaryRule
  rw [bind_position, bind_position]
  refine (hreach .unary 0 c c' s s' hc hs).bind fun left s₁ s₁' h₁ => ?_
  exact hreach (.binaryTail floor s.position left) s'.position c c' s₁ s₁' hc h₁

theorem substituted_binaryTailRule (floor start start' : Nat) (left : NodeId) :
    SubstitutedResults object name other atFront.id (binaryTailRule reach floor start left c s)
      (binaryTailRule reach' floor start' (atFront.id left) c' s') := by
  unfold binaryTailRule
  have hoperator : operatorAt? c' (c'.next s').kind = operatorAt? c (c.next s).kind := by
    unfold operatorAt?
    rw [hc.allowIn, hs.kind_next hc]
  rw [bind_peekKind, bind_peekKind, hoperator]
  cases operatorAt? c (c.next s).kind with
  | none => exact .ok left hs
  | some operator =>
      dsimp only
      split
      next => exact .ok left hs
      next =>
        rw [bind_advance, bind_advance]
        refine (hreach (.binary operator.precedence) 0 c c' _ _ hc (hs.moved hc)).bind
          fun right s₁ s₁' h₁ => ?_
        refine (h₁.addSince start start' (.binary operator left right)).bind
          fun joined s₂ s₂' h₂ => ?_
        exact hreach (.binaryTail floor start joined) start' c c' s₂ s₂' hc h₂

theorem substituted_applyRule (goal : Goal) (start' : Nat) :
    SubstitutedResults object name other (goal.placedResult atFront start')
    (applyRule reach goal c s)
      (applyRule reach' (goal.placed atFront start') c' s') := by
  cases hgoal : goal.isParallel with
  | true =>
      have hlink : (Scope.substitution object name other).link c c' := hc
      exact (parallel_applyRule hlink (Scope.full_substitution object name other) goal start' hgoal
        fun _ => trivial).substituted hreach s s' hs
  | false =>
      cases goal with
      | branch =>
          show SubstitutedResults object name other atFront.id (branchRule reach c s)
            (branchRule reach' c' s')
          rw [branchRule_eq_statement hc.strict, branchRule_eq_statement hc.strict']
          exact hreach .statement 0 c c' s s' hc hs
      | binary floor => exact substituted_binaryRule hreach hc hs floor
      | binaryTail floor start left =>
          exact substituted_binaryTailRule hreach hc hs floor start start' left
      | _ => cases hgoal

end

/-- Behind the word the grammar reads both streams in the same way. -/
theorem substituted_grammar (object name other : String) (budget : Nat) :
    Strategy.Substituted object name other (grammar budget) (grammar budget) := by
  induction budget with
  | zero =>
      intro goal start' c c' s s' hc hs
      exact .error _ _ s s'
  | succ budget ih =>
      intro goal start' c c' s s' hc hs
      exact substituted_applyRule ih hc hs goal start'

end Grammar
end ScriptHints

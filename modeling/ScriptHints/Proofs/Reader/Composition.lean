import ScriptHints.Proofs.Reader.Outcome
import ScriptHints.Proofs.Token.Ended

/-!
# How rules are composed

Every rule of the grammar is put together from a few steps: it looks at the next token,
moves behind it, adds a node, fails, closes a bracket and reaches other goals. This module
says once what such a composition is, along with what is known about the position at each
of its steps. What all rules have in common is then proved by induction on compositions,
and no longer rule by rule.
-/

namespace ScriptHints

def Syntax.Node.isSkipped : Syntax.Node → Bool
  | .skipped _ => true
  | _ => false

namespace Grammar

open Syntax Token

/-!
## Stages

What is known about the position while a rule runs, compared with the position at which
it started.
-/

inductive Stage where
  | anywhere
  /-- A token other than the end of the text comes next. -/
  | atToken
  | atEnd
  /-- A token has been read. -/
  | moved
deriving DecidableEq

namespace Stage

def Holds (stream : TokenStream) (start : Nat) : Stage → State → Prop
  | .anywhere, s => start ≤ s.position
  | .atToken, s => start ≤ s.position ∧ s.position < stream.size
  | .atEnd, s => start ≤ s.position ∧ stream.size ≤ s.position
  | .moved, s => start < s.position

def seeing (stage : Stage) (t : Token) : Stage :=
  if stage = .moved then .moved
  else if t.kind = .endOfText then .atEnd
  else .atToken

theorem Holds.anywhere {stream : TokenStream} {start : Nat} {stage : Stage} {s : State}
    (h : stage.Holds stream start s) : start ≤ s.position := by
  cases stage with
  | anywhere => exact h
  | atToken => exact h.1
  | atEnd => exact h.1
  | moved => exact Nat.le_of_lt h

theorem Holds.seeing {stream : TokenStream} (ended : stream.Ended) {start : Nat}
    {stage : Stage} {s : State} (h : stage.Holds stream start s) :
    (stage.seeing (stream.get s.position)).Holds stream start s := by
  unfold Stage.seeing
  split
  next hmoved =>
    rw [hmoved] at h
    exact h
  next =>
    have hkind := ended.kind_get_eq_iff s.position
    split
    next hend => exact ⟨h.anywhere, hkind.mp hend⟩
    next hend =>
      refine ⟨h.anywhere, ?_⟩
      exact Nat.lt_of_not_le fun hle => hend (hkind.mpr hle)

theorem seeing_moved (t : Token) : Stage.moved.seeing t = .moved := rfl

theorem seeing_eq_atToken {t : Token} (h : t.kind ≠ .endOfText) {stage : Stage}
    (hstage : stage ≠ .moved) : stage.seeing t = .atToken := by
  unfold Stage.seeing
  rw [if_neg hstage, if_neg h]

theorem seeing_eq_atEnd {t : Token} (h : t.kind = .endOfText) {stage : Stage}
    (hstage : stage ≠ .moved) : stage.seeing t = .atEnd := by
  unfold Stage.seeing
  rw [if_neg hstage, if_pos h]

theorem seeing_of_ne {t : Token} (h : t.kind ≠ .endOfText) (stage : Stage) :
    stage.seeing t = .atToken ∨ stage.seeing t = .moved := by
  by_cases hstage : stage = .moved
  · right
    rw [hstage, seeing_moved]
  · exact .inl (seeing_eq_atToken h hstage)

end Stage

/-!
## Goals

Goals that can be reached without a token in between have smaller and smaller ranks.
-/

namespace Goal

def rank : Goal → Nat
  | .statements _ => 9
  | .branch => 8
  | .statement => 7
  | .expression | .arguments | .elements => 6
  | .assignment => 5
  | .binary _ => 4
  | .unary => 3
  | .member _ => 2
  | _ => 1

/-- No such goal is reached without reading a token. -/
def takesToken : Goal → Bool
  | .expression | .assignment | .binary _ | .unary | .member _ => true
  | _ => false

def stageAfter (goal : Goal) (stage : Stage) : Stage :=
  if goal.takesToken = true ∨ stage = .moved then .moved
  else if stage = .atToken ∧ (goal = .statement ∨ goal = .branch) then .moved
  else .anywhere

end Goal

/-!
## Compositions
-/

/-- A reading on every machine, for all options and all ways of reaching goals. -/
abbrev Family (α : Type) :=
  Machine → Options → Strategy → Reader α

def Context.under (c : Context) (o : Options) : Context :=
  { c with options := o }

/--
Readings that are composed of steps over a stream.

The stages tell what is known before and after the reading. Without a token in between
only goals below the limit are reached.
-/
inductive Composed (stream : TokenStream) (limit : Nat) :
    {α : Type} → Stage → Family α → Stage → Prop where
  | pure {α : Type} (k : Stage) (a : α) : Composed stream limit k (fun _ _ _ => pure a) k
  | bind {α β : Type} {k m l : Stage} {x : Family α} {f : α → Family β} :
      Composed stream limit k x m ->
      (forall a, Composed stream limit m (f a) l) ->
      Composed stream limit k (fun m o reach => x m o reach >>= fun a => f a m o reach) l
  | weaken {α : Type} {k k' l l' : Stage} {x : Family α} :
      Composed stream limit k x l ->
      k = k' ∨ k = .anywhere ->
      l = l' ∨ l' = .anywhere ->
      Composed stream limit k' x l'
  | position (k : Stage) : Composed stream limit k (fun _ _ _ => position) k
  | look {β : Type} {k l : Stage} {f : Token → Family β} (c : Context) :
      c.stream = stream ->
      (forall t, (k = .atToken -> t.kind ≠ .endOfText) ->
        Composed stream limit (k.seeing t) (f t) l) ->
      Composed stream limit k (fun m o reach => peek (c.under o) >>= fun t => f t m o reach) l
  | advance {k : Stage} (c : Context) :
      c.stream = stream ->
      k = .atToken ∨ k = .moved ->
      Composed stream limit k (fun _ o _ => advance (c.under o)) .moved
  | add (k : Stage) (c : Context) (start : Nat) (node : Node) :
      c.stream = stream ->
      node.isSkipped = false ->
      Composed stream limit k (fun _ o _ => addSince (c.under o) start node) k
  | fail {α : Type} (k l : Stage) (c : Context) (fault : SyntaxFault) :
      c.stream = stream ->
      fault ≠ .exhausted ->
      Composed stream limit k (fun _ o _ => (fail (c.under o) fault : Reader α)) l
  | closing (c : Context) (mark : Punctuator) (what : Expectation) :
      c.stream = stream ->
      Composed stream limit .moved (fun _ o _ => expectClosing (c.under o) mark what) .moved
  | closedByEnd {α : Type} (k : Stage) (c : Context) (atEnd : Bool) (a : α)
      (what : Expectation) (fault : SyntaxFault) :
      c.stream = stream ->
      fault ≠ .exhausted ->
      (atEnd = true -> k = .atEnd) ->
      Composed stream limit k
        (fun _ o _ =>
          if atEnd && o.recover then do
            warnClosedByEnd (c.under o) what
            return a
          else Grammar.fail (c.under o) fault) k
  | missing (c : Context) {x : Family NodeId} :
      c.stream = stream ->
      Composed stream limit .atEnd x .moved ->
      Composed stream limit .atEnd
        (fun m o reach => if o.recover then missingStatementRule (c.under o) else x m o reach)
        .anywhere
  | reach {k : Stage} (goal : Goal) (c : Context) :
      c.stream = stream ->
      k = .moved ∨ goal.rank < limit ->
      Composed stream limit k (fun _ o reach => reach goal (c.under o)) (goal.stageAfter k)

/-!
## Derived compositions
-/

namespace Composed

variable {stream : TokenStream} {limit : Nat} {k l : Stage} {α β : Type}

theorem anyStage {x : Family α} (h : Composed stream limit .anywhere x l) (k : Stage) :
    Composed stream limit k x l :=
  .weaken h (.inr rfl) (.inl rfl)

theorem loose {x : Family α} (h : Composed stream limit k x l) :
    Composed stream limit k x .anywhere :=
  .weaken h (.inl rfl) (.inr rfl)

theorem ite {p : Prop} [Decidable p] {x y : Family α}
    (hthen : p -> Composed stream limit k x l)
    (helse : ¬ p -> Composed stream limit k y l) :
    Composed stream limit k (fun m o reach => if p then x m o reach else y m o reach) l := by
  by_cases h : p
  · simp only [if_pos h]
    exact hthen h
  · simp only [if_neg h]
    exact helse h

theorem map {x : Family α} (f : α → β) (h : Composed stream limit k x l) :
    Composed stream limit k (fun m o reach => f <$> x m o reach) l := by
  simp only [map_eq_pure_bind]
  exact .bind h fun a => .pure l (f a)

theorem lookKind {f : TokenKind → Family β} (c : Context) (hc : c.stream = stream)
    (hf : forall t : Token, (k = .atToken -> t.kind ≠ .endOfText) ->
      Composed stream limit (k.seeing t) (f t.kind) l) :
    Composed stream limit k (fun m o reach => peekKind (c.under o) >>= fun t =>
      f t m o reach) l := by
  simp only [peekKind_bind_eq]
  exact .look (f := fun t => f t.kind) c hc hf

theorem accept {f : Bool → Family β} (c : Context) (hc : c.stream = stream)
    {kind : TokenKind} (hkind : kind ≠ .endOfText)
    (htrue : Composed stream limit .moved (f true) l)
    (hfalse : forall t, Composed stream limit (k.seeing t) (f false) l) :
    Composed stream limit k
      (fun m o reach => Grammar.accept (c.under o) kind >>= fun found => f found m o reach) l := by
  simp only [accept_bind_eq]
  refine .look c hc fun t _ => .ite (fun h => ?_) fun _ => hfalse t
  have hmoves : t.kind ≠ .endOfText := by
    rw [h]
    exact hkind
  exact .bind (.advance c hc (Stage.seeing_of_ne hmoves k)) fun _ => htrue

end Composed

section

variable {stream : TokenStream} {limit : Nat} (c : Context) (hc : c.stream = stream)
include hc

theorem composed_expect (mark : Punctuator) (what : Expectation) (k : Stage) :
    Composed stream limit k (fun _ o _ => expect (c.under o) mark what) .moved := by
  unfold expect
  refine .accept c hc nofun ?_ fun t => ?_
  · exact .pure .moved ()
  · exact .fail _ .moved c (.expected what) hc nofun

theorem composed_endStatement (what : Expectation) :
    Composed stream limit .moved (fun _ o _ => endStatement (c.under o) what) .moved := by
  unfold endStatement
  refine .look c hc fun t _ => .ite (fun _ => ?_) fun _ => .ite (fun _ => ?_) fun _ => ?_
  · exact .advance c hc (.inr rfl)
  · exact .pure .moved ()
  · exact .fail .moved .moved c (.expected what) hc nofun

theorem composed_newName (what : Expectation) (k : Stage) :
    Composed stream limit k (fun _ o _ => newName (c.under o) what) .moved := by
  unfold newName
  refine .bind (.position k) fun start => .look c hc fun t _ => .ite (fun h => ?_) fun _ => ?_
  · have hmoves : t.kind ≠ .endOfText := by
      rw [h]
      exact nofun
    refine .bind (.advance c hc (Stage.seeing_of_ne hmoves k)) fun _ => ?_
    exact .add .moved c start _ hc rfl
  · exact .fail _ .moved c (.expected what) hc nofun

theorem composed_nested {α : Type} {k l : Stage} {rule : Machine → Strategy → Context → Reader α}
    (h : forall c : Context, c.stream = stream ->
      Composed stream limit k (fun m o reach => rule m reach (c.under o)) l) :
    Composed stream limit k (fun m o reach => nested (c.under o) (rule m reach)) l := by
  show Composed stream limit k
    (fun m o reach => if nestingLimit ≤ c.depth then fail (c.under o) .tooDeep
      else rule m reach (Context.under { c with depth := c.depth + 1 } o)) l
  refine .ite (fun _ => ?_) fun _ => ?_
  · exact .fail k l c .tooDeep hc nofun
  · exact h { c with depth := c.depth + 1 } hc

end

end Grammar
end ScriptHints

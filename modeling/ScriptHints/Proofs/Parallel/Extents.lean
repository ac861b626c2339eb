import ScriptHints.Proofs.Parallel.Loops

/-!
# The extent of an expression

The node that an expression is read as reaches from the token at which the reading began to the
last token that it has read. A rule either adds such a node at its end or hands on what a goal has
given that it reached at its own beginning.
-/

namespace ScriptHints
namespace Grammar

open Syntax Token

/-- The node covers the tokens from a position up to where the reading has come. -/
def Extends (c : Context) (start : Nat) (id : NodeId) (s : State) : Prop :=
  exists entry, s.tree.get? id = some entry ∧ entry.span = c.spanOf start s.position

def ExtendsFrom (c : Context) (start : Nat) (r : EStateM.Result SyntaxError State NodeId) : Prop :=
  forall id s, r = .ok id s -> Extends c start id s

namespace ExtendsFrom

variable {c : Context} {start : Nat} {s : State}

theorem error {e : SyntaxError} : ExtendsFrom c start (.error e s) :=
  nofun

theorem pure {id : NodeId} (h : Extends c start id s) :
    ExtendsFrom c start ((pure id : Reader NodeId) s) := by
  rintro _ _ ⟨⟩
  exact h

theorem addSince (c : Context) (start : Nat) (node : Node) (s : State) :
    ExtendsFrom c start (Grammar.addSince c start node s) := by
  intro id s' h
  rw [addSince_eq] at h
  cases h
  refine ⟨⟨node, c.spanOf start s.position, none⟩, ?_, rfl⟩
  show (s.tree.add node _).get? s.tree.nextId = _
  rw [SyntaxTree.get?_add, if_pos rfl]

theorem position {f : Nat → Reader NodeId} (h : ExtendsFrom c start (f s.position s)) :
    ExtendsFrom c start ((Grammar.position >>= f) s) :=
  h

theorem behind {α : Type} {x : Reader α} {f : α → Reader NodeId}
    (hf : forall a s₁, ExtendsFrom c start (f a s₁)) : ExtendsFrom c start ((x >>= f) s) := by
  intro id s' h
  rcases bind_ok_iff.mp h with ⟨a, s₁, _, hrest⟩
  exact hf a s₁ id s' hrest

/-- A rule may go on with a node that covers what it has read so far. -/
theorem onward {x : Reader NodeId} {f : NodeId → Reader NodeId} (hx : ExtendsFrom c start (x s))
    (hf : forall id s₁, Extends c start id s₁ -> ExtendsFrom c start (f id s₁)) :
    ExtendsFrom c start ((x >>= f) s) := by
  intro id s' h
  rcases bind_ok_iff.mp h with ⟨id₁, s₁, hid₁, hrest⟩
  exact hf id₁ s₁ (hx id₁ s₁ hid₁) id s' hrest

end ExtendsFrom

/-!
## Rules that add a node at their end
-/

section

variable (reach : Strategy) (c : Context) (s : State)

theorem extends_functionRule (declaration : Bool) :
    ExtendsFrom c s.position (functionRule reach declaration c s) := by
  refine .position (.behind fun _ _ => .behind fun _ _ => .behind fun _ _ => ?_)
  refine .behind fun closed _ => ?_
  split
  next => exact .behind fun _ _ => .behind fun _ _ => .addSince _ _ _ _
  next => exact .behind fun _ _ => .behind fun _ _ => .addSince _ _ _ _

theorem extends_operandRule : ExtendsFrom c s.position (operandRule reach c s) := by
  unfold operandRule
  rw [bind_position, bind_peek]
  cases operand? (c.next s) with
  | some node => exact .behind fun _ _ => .addSince _ _ _ _
  | none =>
      cases (c.next s).kind with
      | keyword word =>
          cases word with
          | functionWord => exact extends_functionRule reach c s false
          | _ => exact .error
      | punctuator mark =>
          cases mark with
          | openParen =>
              refine .position (.behind fun _ _ => .behind fun _ _ => .behind fun _ _ => ?_)
              exact .addSince _ _ _ _
          | openBracket | openBrace =>
              exact .position (.behind fun _ _ => .behind fun _ _ => .addSince _ _ _ _)
          | _ => exact .error
      | _ => exact .error

theorem extends_frontRule : ExtendsFrom c s.position (frontRule reach c s) := by
  unfold frontRule
  rw [bind_peekKind]
  split
  next =>
    refine .position (.behind fun _ _ => .behind fun _ _ => .behind fun kind _ => ?_)
    split
    next => exact .behind fun _ _ => .addSince _ _ _ _
    next => exact .behind fun _ _ => .addSince _ _ _ _
  next => exact extends_operandRule reach c s

theorem Iteration.extends (iteration : Iteration) (start : Nat) (left : NodeId) :
    ExtendsFrom c start (iteration.read reach start left c s) := by
  cases iteration with
  | operation operator | name => exact .behind fun _ _ => .behind fun _ _ => .addSince _ _ _ _
  | element => exact .behind fun _ _ => .behind fun _ _ => .behind fun _ _ => .addSince _ _ _ _
  | arguments => exact .behind fun _ _ => .addSince _ _ _ _

end

/-!
## Goals
-/

structure Strategy.Extends (reach : Strategy) : Prop where
  expression (c : Context) (s : State) : ExtendsFrom c s.position (reach .expression c s)
  assignment (c : Context) (s : State) : ExtendsFrom c s.position (reach .assignment c s)
  unary (c : Context) (s : State) : ExtendsFrom c s.position (reach .unary c s)
  whole (loop : Loop) (c : Context) (s : State) : ExtendsFrom c s.position (loop.whole reach c s)
  rest (loop : Loop) (c : Context) (s : State) (start : Nat) (left : NodeId) :
    Grammar.Extends c start left s -> ExtendsFrom c start (loop.rest reach start left c s)
  /-- Where no comma comes, nothing is read. -/
  sequence (c : Context) (s s' : State) : reach .sequenceTail c s = .ok [] s' -> s' = s

section

variable {reach : Strategy} (hreach : reach.Extends) (c : Context) (s : State)
include hreach

theorem extends_expressionRule : ExtendsFrom c s.position (expressionRule reach c s) := by
  unfold expressionRule
  rw [bind_position]
  refine .onward (hreach.assignment c s) fun first s₁ hfirst => ?_
  intro id s' h
  rcases bind_ok_iff.mp h with ⟨more, s₂, hmore, hrest⟩
  cases more with
  | nil =>
      rw [hreach.sequence c s₁ s₂ hmore] at hrest
      exact ExtendsFrom.pure hfirst id s' hrest
  | cons => exact ExtendsFrom.addSince _ _ _ _ id s' hrest

theorem extends_conditionalRule : ExtendsFrom c s.position (conditionalRule reach c s) := by
  unfold conditionalRule
  rw [bind_position]
  refine .onward (hreach.whole (.operations 0) c s) fun test s₁ htest => ?_
  rw [bind_accept]
  split
  next => exact .behind fun _ _ => .behind fun _ _ => .behind fun _ _ => .addSince _ _ _ _
  next => exact .pure htest

theorem extends_assignmentRule : ExtendsFrom c s.position (assignmentRule reach c s) := by
  unfold assignmentRule
  rw [bind_position]
  refine .onward (extends_conditionalRule hreach c s) fun target s₁ htarget => ?_
  rw [bind_peekKind]
  cases AssignmentOperator.ofKind? (c.next s₁).kind with
  | none => exact .pure htarget
  | some operator => exact .behind fun _ _ => .behind fun _ _ => .addSince _ _ _ _

theorem extends_unaryRule : ExtendsFrom c s.position (unaryRule reach c s) := by
  unfold unaryRule
  rw [bind_position, bind_peekKind]
  cases UnaryOperator.ofKind? (c.next s).kind with
  | some operator => exact .behind fun _ _ => .behind fun _ _ => .addSince _ _ _ _
  | none =>
      cases UpdateOperator.ofKind? (c.next s).kind with
      | some operator => exact .behind fun _ _ => .behind fun _ _ => .addSince _ _ _ _
      | none =>
          refine .onward (hreach.whole (.accesses true) c s) fun operand s₁ hoperand => ?_
          rw [bind_peek]
          cases UpdateOperator.ofKind? (c.next s₁).kind with
          | none => exact .pure hoperand
          | some operator =>
              dsimp only
              split
              next => exact .pure hoperand
              next => exact .behind fun _ _ => .addSince _ _ _ _

theorem extends_loop (loop : Loop) :
    ExtendsFrom c s.position (loop.whole (applyRule reach) c s) := by
  rw [Loop.whole_applyRule, bind_position]
  have hfront : ExtendsFrom c s.position (loop.front reach c s) := by
    cases loop with
    | operations floor => exact hreach.unary c s
    | accesses calls => exact extends_frontRule reach c s
  exact .onward hfront fun left s₁ hleft => hreach.rest loop c s₁ s.position left hleft

theorem extends_rest (loop : Loop) {start : Nat} {left : NodeId} (h : Extends c start left s) :
    ExtendsFrom c start (loop.rest (applyRule reach) start left c s) := by
  rw [Loop.rest_applyRule]
  split
  next => exact .pure h
  next iteration _ =>
    exact .onward (iteration.extends reach c s start left) fun joined s₁ hjoined =>
      hreach.rest loop c s₁ start joined hjoined

end

theorem extends_grammar (budget : Nat) : (grammar budget).Extends := by
  induction budget with
  | zero =>
      constructor
      case whole => intro loop c s; cases loop <;> exact .error
      case rest => intro loop c s start left _; cases loop <;> exact .error
      case sequence => exact fun c s s' h => absurd h fail_ne_ok
      all_goals exact fun c s => .error
  | succ budget ih =>
      have nested {c : Context} {s : State} :
          ExtendsFrom c s.position (Grammar.nested c (unaryRule (grammar budget)) s) := by
        rw [nested_eq]
        split
        next => exact .error
        next => exact extends_unaryRule ih c.deeper s
      constructor
      case expression => exact extends_expressionRule ih
      case assignment => exact extends_assignmentRule ih
      case unary => exact fun c s => nested
      case whole => exact fun loop c s => extends_loop ih c s loop
      case rest => exact fun loop c s start left h => extends_rest ih c s loop h
      case sequence =>
        intro c s s' h
        have h : sequenceTailRule (grammar budget) c s = .ok [] s' := h
        unfold sequenceTailRule at h
        rw [bind_accept] at h
        split at h
        next =>
          rcases bind_ok_iff.mp h with ⟨_, _, _, hrest⟩
          rcases bind_ok_iff.mp hrest with ⟨_, _, _, hmore⟩
          cases hmore
        next =>
          cases h
          rfl

end Grammar
end ScriptHints

import ScriptHints.Proofs.Reader.Progress

/-!
# Tilings of a stream by statements

A recovering reading of a list of statements does not fail. The statements it reads lie
one behind the other: the span of each goes from the first token behind the statement
before it to the last token before the one after it.
-/

namespace ScriptHints
namespace Grammar

open Syntax Token

/-!
## Spans of statements
-/

def Closes (c : Context) (start : Nat) (x : Reader NodeId) : Prop :=
  forall s id s', x s = .ok id s' -> s'.tree.span id = .ok (c.spanOf start s'.position)

def Spans (c : Context) (x : Reader NodeId) : Prop :=
  forall s id s', x s = .ok id s' -> s'.tree.span id = .ok (c.spanOf s.position s'.position)

namespace Closes

variable {c : Context} {start : Nat}

theorem add (node : Node) : Closes c start (addSince c start node) := by
  intro s id s' heq
  rw [addSince_eq] at heq
  cases heq
  exact s.tree.span_add_nextId node _

theorem bind {x : Reader α} {f : α → Reader NodeId} (h : forall a, Closes c start (f a)) :
    Closes c start (x >>= f) := by
  intro s id s' heq
  rcases bind_ok_iff.mp heq with ⟨a, s₁, _, hf⟩
  exact h a s₁ id s' hf

theorem fail (fault : SyntaxFault) : Closes c start (Grammar.fail c fault) := by
  intro s id s' heq
  exact absurd heq fail_ne_ok

theorem ite {p : Prop} [Decidable p] {x y : Reader NodeId} (hthen : Closes c start x)
    (helse : Closes c start y) : Closes c start (if p then x else y) := by
  split
  next => exact hthen
  next => exact helse

end Closes

theorem Spans.ofPosition {c : Context} {f : Nat → Reader NodeId}
    (h : forall start, Closes c start (f start)) : Spans c (position >>= f) := by
  intro s id s' heq
  rw [bind_position] at heq
  exact h s.position s id s' heq

theorem Spans.look {c : Context} {f : TokenKind → Reader NodeId}
    (h : forall kind, Spans c (f kind)) : Spans c (peekKind c >>= f) := by
  intro s id s' heq
  rw [bind_peekKind] at heq
  exact h _ s id s' heq

theorem Spans.ite {c : Context} {p : Prop} [Decidable p] {x y : Reader NodeId}
    (hthen : Spans c x) (helse : Spans c y) : Spans c (if p then x else y) := by
  split
  next => exact hthen
  next => exact helse

section

variable (reach : Strategy) (c : Context)

theorem spans_blockRule : Spans c (blockRule reach c) :=
  .ofPosition fun _ => .bind fun _ => .bind fun _ => .bind fun _ => .add _

theorem spans_functionRule (declaration : Bool) : Spans c (functionRule reach declaration c) := by
  refine .ofPosition fun start => .bind fun _ => .bind fun name => .bind fun _ => ?_
  refine .bind fun closed => ?_
  cases closed with
  | true => exact .bind fun params => .bind fun body => .add _
  | false => exact .bind fun params => .bind fun body => .add _

theorem spans_declarationRule (statement : Bool) : Spans c (declarationRule reach statement c) := by
  refine .ofPosition fun start => .bind fun _ => .bind fun declared => ?_
  cases statement with
  | true => exact .bind fun _ => .add _
  | false => exact .add _

theorem spans_emptyRule : Spans c (emptyRule c) :=
  .ofPosition fun _ => .bind fun _ => .add _

theorem spans_expressionStatementRule : Spans c (expressionStatementRule reach c) :=
  .ofPosition fun _ => .bind fun _ => .bind fun _ => .add _

theorem spans_missingStatementRule : Spans c (missingStatementRule c) :=
  .ofPosition fun _ => .bind fun _ => .bind fun _ => .add _

theorem spans_jumpRule (jump : Option NodeId → Node) : Spans c (jumpRule jump c) :=
  .ofPosition fun _ => .bind fun _ => .bind fun _ => .bind fun _ => .add _

theorem spans_returnRule : Spans c (returnRule reach c) := by
  refine .ofPosition fun start => .bind fun _ => .bind fun next => .ite ?_ ?_
  · exact .bind fun value => .bind fun _ => .add _
  · exact .bind fun value => .bind fun _ => .add _

theorem spans_throwRule : Spans c (throwRule reach c) := by
  refine .ofPosition fun start => .bind fun _ => .bind fun next => .ite (.fail _) ?_
  exact .bind fun value => .bind fun _ => .add _

theorem spans_ifRule : Spans c (ifRule reach c) := by
  refine .ofPosition fun start => .bind fun _ => .bind fun condition => .bind fun thenBranch => ?_
  refine .bind fun hasElse => ?_
  cases hasElse with
  | true => exact .bind fun elseBranch => .add _
  | false => exact .bind fun elseBranch => .add _

theorem spans_whileRule : Spans c (whileRule reach c) :=
  .ofPosition fun _ => .bind fun _ => .bind fun _ => .bind fun _ => .add _

theorem spans_doWhileRule : Spans c (doWhileRule reach c) := by
  refine .ofPosition fun start => .bind fun _ => .bind fun body => .bind fun found => ?_
  cases found with
  | true => exact .bind fun condition => .bind fun _ => .add _
  | false => exact .bind fun _ => .bind fun condition => .bind fun _ => .add _

theorem spans_withRule : Spans c (withRule reach c) :=
  .ofPosition fun _ => .bind fun _ => .bind fun _ => .bind fun _ => .add _

theorem closes_forInTailRule (start : Nat) (iterator : NodeId) :
    Closes c start (forInTailRule reach start iterator c) :=
  .bind fun _ => .bind fun _ => .bind fun _ => .add _

theorem closes_forTailRule (start : Nat) (initializer : Option NodeId) :
    Closes c start (forTailRule reach start initializer c) :=
  .bind fun _ => .bind fun _ => .bind fun _ => .bind fun _ => .bind fun _ => .bind fun _ => .add _

theorem spans_forRule : Spans c (forRule reach c) := by
  refine .ofPosition fun start => .bind fun _ => .bind fun _ => .bind fun initializer => ?_
  cases initializer with
  | none => exact closes_forTailRule reach c start none
  | some initializer =>
      refine .bind fun found => .ite ?_ ?_
      · exact closes_forInTailRule reach c start initializer
      · exact closes_forTailRule reach c start (some initializer)

theorem spans_switchRule : Spans c (switchRule reach c) :=
  .ofPosition fun _ => .bind fun _ => .bind fun _ => .bind fun _ => .bind fun _ => .add _

theorem spans_tryRule : Spans c (tryRule reach c) := by
  refine .ofPosition fun start => .bind fun _ => .bind fun body => .bind fun handler => ?_
  exact .bind fun finalizer => .ite (.fail _) (.add _)

theorem spans_labeledRule : Spans c (labeledRule reach c) :=
  .ofPosition fun _ => .bind fun _ => .bind fun _ => .bind fun _ => .add _

theorem spans_statementRule : Spans c (statementRule reach c) := by
  unfold statementRule
  refine .look fun kind => ?_
  split
  next => exact spans_blockRule reach c
  next => exact spans_emptyRule c
  next => exact spans_declarationRule reach c true
  next => exact spans_ifRule reach c
  next => exact spans_doWhileRule reach c
  next => exact spans_whileRule reach c
  next => exact spans_forRule reach c
  next => exact spans_jumpRule c .continueOn
  next => exact spans_jumpRule c .breakOff
  next => exact spans_returnRule reach c
  next => exact spans_withRule reach c
  next => exact spans_switchRule reach c
  next => exact spans_throwRule reach c
  next => exact spans_tryRule reach c
  next => exact spans_functionRule reach c true
  next =>
    intro s id s' heq
    unfold isLabel at heq
    rw [bind_assoc, bind_position] at heq
    have hforms (label : Bool) : Spans c
        (if label then labeledRule reach c else expressionStatementRule reach c) :=
      .ite (spans_labeledRule reach c) (spans_expressionStatementRule reach c)
    exact hforms _ s id s' heq
  next => exact .ite (spans_missingStatementRule c) (spans_expressionStatementRule reach c)
  next => exact spans_expressionStatementRule reach c

end

theorem spans_statement (budget : Nat) (c : Context) : Spans c (grammar budget .statement c) := by
  cases budget with
  | zero =>
      intro s id s' heq
      cases heq
  | succ budget =>
      intro s id s' heq
      have heq : nested c (statementRule (grammar budget)) s = .ok id s' := heq
      unfold nested at heq
      split at heq
      next => cases heq
      next => exact spans_statementRule (grammar budget) { c with depth := c.depth + 1 } s id s' heq

/-!
## Tilings
-/

/-- Nodes whose spans lie one behind the other, from the token at `start` up to, but without,
the token at `stop`, each of at least one token. -/
inductive Tiles (c : Context) (t : SyntaxTree) : List NodeId → Nat → Nat → Prop where
  | nil (start : Nat) : Tiles c t [] start start
  | cons {id : NodeId} {ids : List NodeId} {start middle stop : Nat} :
      start < middle ->
      t.span id = .ok (c.spanOf start middle) ->
      Tiles c t ids middle stop ->
      Tiles c t (id :: ids) start stop

theorem Tiles.grow {c : Context} {t t' : SyntaxTree} {ids : List NodeId} {start stop : Nat}
    (h : Tiles c t ids start stop) (hgrown : t.Extends t') : Tiles c t' ids start stop := by
  induction h with
  | nil start => exact .nil start
  | cons hlt hspan _ ih => exact .cons hlt (hgrown.span_eq hspan) ih

theorem Tiles.withRoot {c : Context} {t : SyntaxTree} {ids : List NodeId} {start stop : Nat}
    (h : Tiles c t ids start stop) (root : NodeId) :
    Tiles c (t.withRoot root) ids start stop := by
  induction h with
  | nil start => exact .nil start
  | cons hlt hspan _ ih => exact .cons hlt hspan ih

section

variable {stream : TokenStream}

/-- During recovery a branch is always reached, and its node covers what has been read. -/
theorem branchRule_ok {reach : Strategy} {c : Context} (hrecover : c.options.recover = true)
    (hspans : Spans c (reach .statement c)) (s : State) :
    exists id s', branchRule reach c s = .ok id s' ∧
      s'.tree.span id = .ok (c.spanOf s.position s'.position) := by
  unfold branchRule
  rw [recovering_eq, if_pos hrecover]
  cases heq : reach .statement c s with
  | ok id s₁ => exact ⟨id, s₁, rfl, hspans s id s₁ heq⟩
  | error e s₁ =>
      simp only [skipStatement_eq, addSince_eq]
      refine ⟨_, _, rfl, ?_⟩
      exact SyntaxTree.span_add_nextId _ _ _

theorem statements_ok (ended : stream.Ended) (budget : Nat) (c : Context)
    (hc : c.stream = stream) (hrecover : c.options.recover = true) (s : State)
    (hbound : s.position ≤ stream.size)
    (hneed : rulesPerToken * (stream.size - s.position) + 9 ≤ budget) :
    exists ids s', grammar budget (.statements .none) c s = .ok ids s' ∧
      s'.position = stream.size ∧ Tiles c s'.tree ids s.position s'.position := by
  induction budget generalizing s with
  | zero => omega
  | succ budget ih =>
      show exists ids s', statementsRule (grammar budget) .none c s = .ok ids s' ∧ _
      unfold statementsRule
      rw [bind_peekKind]
      have hnext : c.next s = stream.get s.position := by
        rw [← hc]
        rfl
      have hkind := ended.kind_get_eq_iff s.position
      rw [hnext]
      by_cases hend : stream.size ≤ s.position
      · refine ⟨[], s, ?_, by omega, .nil _⟩
        simp only [hkind.mpr hend, decide_true, Bool.true_or, if_true]
        rfl
      · have hmore : (stream.get s.position).kind ≠ .endOfText := fun h => hend (hkind.mp h)
        have hgoes : ¬ (decide ((stream.get s.position).kind = .endOfText) ||
            ListEnd.none.covers (stream.get s.position).kind) = true := by
          simp [hmore, ListEnd.covers]
        rw [if_neg hgoes]
        -- There is a budget left for the branch, so the branch is read or skipped.
        have hbudget : exists less, budget = less + 1 := by
          refine ⟨budget - 1, ?_⟩
          unfold rulesPerToken at hneed
          omega
        rcases hbudget with ⟨less, hless⟩
        have hspans := spans_statement less c
        rcases branchRule_ok hrecover hspans s with ⟨id, s₁, hbranch, hspan⟩
        have hbranch : grammar budget .branch c s = .ok id s₁ := by
          rw [hless]
          exact hbranch
        rcases steady_grammar ended budget .branch c s hc hbound with ⟨hsteps, hreads⟩
        rw [hbranch] at hsteps
        have hmoved : s.position < s₁.position :=
          (hreads id s₁ hbranch).2 (.inr rfl) (by omega)
        have hbound₁ : s₁.position ≤ stream.size := hsteps.bounded
        have hneed₁ : rulesPerToken * (stream.size - s₁.position) + 9 ≤ budget := by
          unfold rulesPerToken at hneed ⊢
          omega
        rcases ih s₁ hbound₁ hneed₁ with ⟨ids, s', hmoreRead, hposition, htiles⟩
        have hgrown := (steady_grammar ended budget (.statements .none) c s₁ hc hbound₁).1.grown
        rw [hmoreRead] at hgrown
        refine ⟨id :: ids, s', ?_, hposition, .cons hmoved (hgrown.span_eq hspan) htiles⟩
        rw [bind_of_ok hbranch, bind_of_ok hmoreRead]
        rfl

end

end Grammar
end ScriptHints

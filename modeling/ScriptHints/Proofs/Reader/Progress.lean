import ScriptHints.Proofs.Reader.StatementRules
import ScriptHints.Proofs.Syntax.Growth

/-!
# Progress of readings

A reading never moves back, not even one that fails, and it never takes a node or a
diagnostic away. Goals that take a token have moved when they are reached.
-/

namespace ScriptHints
namespace Grammar

open Syntax Token

/-!
## Steps
-/

/-- How the state at the end of a reading compares with the state at its beginning. -/
structure Steps (stream : TokenStream) (o : Options) (s s' : State) : Prop where
  onward : s.position ≤ s'.position
  bounded : s'.position ≤ stream.size
  grown : s.tree.Extends s'.tree
  reported : s.diagnostics.toList <+: s'.diagnostics.toList
  silent : o.recover = false ∨ o.report = false -> s'.diagnostics = s.diagnostics

namespace Steps

variable {stream : TokenStream} {o : Options} {s s' s'' : State}

theorem refl (hbound : s.position ≤ stream.size) : Steps stream o s s where
  onward := Nat.le_refl _
  bounded := hbound
  grown := .refl _
  reported := List.prefix_refl _
  silent _ := rfl

theorem trans (h : Steps stream o s s') (h' : Steps stream o s' s'') : Steps stream o s s'' where
  onward := Nat.le_trans h.onward h'.onward
  bounded := h'.bounded
  grown := h.grown.trans h'.grown
  reported := h.reported.trans h'.reported
  silent hquiet := (h'.silent hquiet).trans (h.silent hquiet)

theorem moved {c : Context} (hc : c.stream = stream) (hbound : s.position ≤ stream.size) :
    Steps stream o s (s.moved c) := by
  unfold State.moved
  rw [hc]
  split
  next hlt =>
    exact {
      onward := Nat.le_succ _
      bounded := hlt
      grown := .refl _
      reported := List.prefix_refl _
      silent := fun _ => rfl }
  next => exact refl hbound

theorem added (c : Context) (start : Nat) (node : Node) (hbound : s.position ≤ stream.size) :
    Steps stream o s (s.added c start node) where
  onward := Nat.le_refl _
  bounded := hbound
  grown := s.tree.extends_add node _
  reported := List.prefix_refl _
  silent _ := rfl

theorem afterReport {c : Context} (hrecover : c.options.recover = true) (d : Diagnostic)
    (hbound : s.position ≤ stream.size) :
    Steps stream c.options s (if c.options.report then s.reported d else s) := by
  cases hreport : c.options.report with
  | false => exact refl hbound
  | true =>
      exact {
        onward := Nat.le_refl _
        bounded := hbound
        grown := .refl _
        reported := by simp [State.reported]
        silent := fun h => by simp [hrecover, hreport] at h }

theorem closedByEnd {c : Context} (hrecover : c.options.recover = true) (what : Expectation)
    (hbound : s.position ≤ stream.size) :
    Steps stream c.options s (finalState (warnClosedByEnd c what s)) := by
  rw [warnClosedByEnd_eq]
  exact afterReport hrecover _ hbound

end Steps

/-!
## Strategies that make progress
-/

def Goal.Reads (goal : Goal) (stream : TokenStream) (s s' : State) : Prop :=
  (goal.takesToken = true -> s.position < s'.position) ∧
    (goal = .statement ∨ goal = .branch -> s.position < stream.size -> s.position < s'.position)

def Strategy.Steady (stream : TokenStream) (reach : Strategy) : Prop :=
  forall goal c s, c.stream = stream -> s.position ≤ stream.size ->
    Steps stream c.options s (finalState (reach goal c s)) ∧
      forall a s', reach goal c s = .ok a s' -> goal.Reads stream s s'

theorem Goal.stageAfter_holds {goal : Goal} {stream : TokenStream} {start : Nat} {k : Stage}
    {s s' : State} (hreads : goal.Reads stream s s') (hle : s.position ≤ s'.position)
    (hk : k.Holds stream start s) : (goal.stageAfter k).Holds stream start s' := by
  have hstart := hk.anywhere
  unfold Goal.stageAfter
  split
  next hmoved =>
    show start < s'.position
    rcases hmoved with htakes | hmoved
    · exact Nat.lt_of_le_of_lt hstart (hreads.1 htakes)
    · rw [hmoved] at hk
      exact Nat.lt_of_lt_of_le hk hle
  next =>
    split
    next hstatement =>
      rw [hstatement.1] at hk
      exact Nat.lt_of_le_of_lt hstart (hreads.2 hstatement.2 hk.2)
    next => exact Nat.le_trans hstart hle

/-!
## Compositions make progress
-/

section

variable {stream : TokenStream}

theorem moved_holds {c : Context} (hc : c.stream = stream)
    {start : Nat} {k : Stage} (hstage : k = .atToken ∨ k = .moved) {s : State}
    (hk : k.Holds stream start s) : start < (s.moved c).position := by
  unfold State.moved
  rw [hc]
  rcases hstage with hstage | hstage
  · rw [hstage] at hk
    rw [if_pos hk.2]
    exact Nat.lt_succ_of_le hk.1
  · rw [hstage] at hk
    split
    next => exact Nat.lt_succ_of_lt hk
    next => exact hk

def Arrives (stream : TokenStream) (o : Options) (start : Nat) (l : Stage) (s : State)
    (r : EStateM.Result SyntaxError State α) : Prop :=
  Steps stream o s (finalState r) ∧ forall a s', r = .ok a s' -> l.Holds stream start s'

theorem Arrives.ok {o : Options} {start : Nat} {l : Stage} {s s' : State} {a : α}
    (hsteps : Steps stream o s s') (hl : l.Holds stream start s') :
    Arrives stream o start l s (.ok a s' : EStateM.Result SyntaxError State α) := by
  refine ⟨hsteps, ?_⟩
  intro a' s'' heq
  cases heq
  exact hl

theorem Arrives.error {o : Options} {start : Nat} {l : Stage} {s s' : State} {e : SyntaxError}
    (hsteps : Steps stream o s s') :
    Arrives stream o start l s (.error e s' : EStateM.Result SyntaxError State α) :=
  ⟨hsteps, nofun⟩

theorem Arrives.after {o : Options} {start : Nat} {l : Stage} {s s' : State}
    {r : EStateM.Result SyntaxError State α} (hsteps : Steps stream o s s')
    (h : Arrives stream o start l s' r) : Arrives stream o start l s r :=
  ⟨hsteps.trans h.1, h.2⟩

theorem arrives_expect {c : Context} (hc : c.stream = stream)
    (mark : Punctuator) (what : Expectation) (start : Nat) (s : State)
    (hbound : s.position ≤ stream.size) (hk : start < s.position) :
    Arrives stream c.options start .moved s (expect c mark what s) := by
  rw [expect_eq]
  split
  next => exact .ok (.moved hc hbound) (moved_holds hc (.inr rfl) hk)
  next => exact .error (.refl hbound)

theorem Composed.arrives {limit : Nat} {k l : Stage} {x : Family α}
    (h : Composed stream limit k x l) (ended : stream.Ended) {reach : Strategy}
    (hreach : reach.Steady stream) (o : Options) (start : Nat) (s : State)
    (hbound : s.position ≤ stream.size) (hk : k.Holds stream start s) :
    Arrives stream o start l s (x .trusting o reach s) := by
  induction h generalizing s with
  | pure k a => exact .ok (.refl hbound) hk
  | @bind _ _ _ _ _ x f _ _ ihx ihf =>
      show Arrives stream o start _ s ((x .trusting o reach >>= fun a => f a .trusting o reach) s)
      have hx := ihx s hbound hk
      cases heq : x .trusting o reach s with
      | ok a s₁ =>
          rw [heq] at hx
          rw [bind_of_ok heq]
          exact (ihf a s₁ hx.1.bounded (hx.2 a s₁ rfl)).after hx.1
      | error e s₁ =>
          rw [heq] at hx
          rw [bind_of_error heq]
          exact .error hx.1
  | @weaken _ k k' l l' x _ hfrom hto ih =>
      have hk₁ : k.Holds stream start s := by
        rcases hfrom with hsame | hany
        · rw [hsame]
          exact hk
        · rw [hany]
          exact hk.anywhere
      rcases ih s hbound hk₁ with ⟨hsteps, hl⟩
      refine ⟨hsteps, ?_⟩
      intro a s' heq
      rcases hto with hsame | hany
      · rw [← hsame]
        exact hl a s' heq
      · rw [hany]
        exact (hl a s' heq).anywhere
  | position k => exact .ok (.refl hbound) hk
  | @look _ k l f c hc _ ih =>
      show Arrives stream o start l s ((peek (c.under o) >>= fun t => f t .trusting o reach) s)
      rw [bind_peek]
      have hnext : Context.next (c.under o) s = stream.get s.position := by
        rw [← hc]
        rfl
      rw [hnext]
      refine ih _ ?_ s hbound (hk.seeing ended)
      intro hatToken hend
      rw [hatToken] at hk
      exact absurd ((ended.kind_get_eq_iff _).mp hend) (Nat.not_le_of_lt hk.2)
  | advance c hc hstage =>
      exact .ok (.moved hc hbound) (moved_holds hc hstage hk)
  | @add k c start' node hc =>
      show Arrives stream o start k s (addSince (c.under o) start' node s)
      rw [addSince_eq]
      refine .ok (.added _ start' node hbound) ?_
      cases k <;> exact hk
  | fail => exact .error (.refl hbound)
  | closing c mark what hc =>
      show Arrives stream o start .moved s (expectClosing (c.under o) mark what s)
      rw [expectClosing_eq]
      split
      next hclosed =>
        refine ⟨.closedByEnd (c := c.under o) hclosed.2 what hbound, ?_⟩
        intro a s' heq
        rw [warnClosedByEnd_eq] at heq
        cases heq
        split <;> exact hk
      next => exact arrives_expect (c := c.under o) hc mark what start s hbound hk
  | @closedByEnd _ k c atEnd a what fault hc =>
      by_cases hclosed : (atEnd && o.recover) = true
      · have hrecover : o.recover = true := by
          simp only [Bool.and_eq_true] at hclosed
          exact hclosed.2
        simp only [if_pos hclosed]
        rw [bind_of_ok (warnClosedByEnd_eq (c.under o) what s)]
        refine .ok (.afterReport (c := c.under o) hrecover _ hbound) ?_
        split <;> cases k <;> exact hk
      · simp only [if_neg hclosed]
        exact .error (.refl hbound)
  | @missing c x hc _ ih =>
      cases hrecover : o.recover with
      | false =>
          simp only [hrecover, Bool.false_eq_true, if_false]
          rcases ih s hbound hk with ⟨hsteps, hmoved⟩
          exact ⟨hsteps, fun a s' heq => (hmoved a s' heq).anywhere⟩
      | true =>
          simp only [hrecover, if_true]
          rw [missingStatementRule_eq, addSince_eq]
          have hreported := Steps.afterReport (c := c.under o) hrecover
            ⟨.error, "expected a statement before end of input",
              some (Span.ofToken ((c.under o).next s))⟩ hbound
          refine .ok (hreported.trans (.added _ s.position .empty hreported.bounded)) ?_
          exact Nat.le_trans hk.anywhere hreported.onward
  | @reach k goal c hc hlimit =>
      rcases hreach goal (c.under o) s hc hbound with ⟨hsteps, hreads⟩
      refine ⟨hsteps, ?_⟩
      intro a s' heq
      have heq : reach goal (c.under o) s = .ok a s' := heq
      have hle : s.position ≤ s'.position := by
        rw [heq] at hsteps
        exact hsteps.onward
      exact Goal.stageAfter_holds (hreads a s' heq) hle hk

/-!
## The grammar makes progress
-/

/-- A branch that cannot be read is skipped, and skipping moves on, too. -/
theorem arrives_branchRule {reach : Strategy} (hreach : reach.Steady stream) {c : Context}
    (hc : c.stream = stream) (s : State) (hbound : s.position ≤ stream.size) :
    Steps stream c.options s (finalState (branchRule reach c s)) ∧
      forall a s', branchRule reach c s = .ok a s' -> Goal.branch.Reads stream s s' := by
  rcases hreach .statement c s hc hbound with ⟨hsteps, hreads⟩
  have hstatement (a : NodeId) (s' : State) (heq : reach .statement c s = .ok a s') :
      Goal.branch.Reads stream s s' :=
    ⟨nofun, fun _ => (hreads a s' heq).2 (.inl rfl)⟩
  unfold branchRule
  rw [recovering_eq]
  split
  next hrecover =>
    cases heq : reach .statement c s with
    | ok a s₁ =>
        rw [heq] at hsteps
        refine ⟨hsteps, ?_⟩
        intro a' s' hsame
        cases hsame
        exact hstatement a s₁ heq
    | error e s₁ =>
        rw [heq] at hsteps
        have hreported := hsteps.trans (.afterReport hrecover
          ⟨.error, e.message, some (Span.ofToken (c.stream.get s.position))⟩ hsteps.bounded)
        simp only [skipStatement_eq, addSince_eq]
        have hstop : c.skipStop s.position ≤ stream.size := by
          rw [← hc]
          apply c.skipStop_le
          rw [hc]
          exact hbound
        constructor
        · exact {
            onward := Nat.le_add_right _ _
            bounded := hstop
            grown := hreported.grown.trans (SyntaxTree.extends_add _ _ _)
            reported := hreported.reported
            silent := hreported.silent }
        · intro a' s' hsame
          cases hsame
          refine ⟨nofun, fun _ hlt => ?_⟩
          exact c.lt_skipStop (by rw [hc]; exact hlt)
  next => exact ⟨hsteps, hstatement⟩

theorem steady_applyRule (ended : stream.Ended) {reach : Strategy}
    (hreach : reach.Steady stream) : Strategy.Steady stream (applyRule reach) := by
  intro goal c s hc hbound
  by_cases hbranch : goal = .branch
  · rw [hbranch]
    exact arrives_branchRule hreach hc s hbound
  · have harrives := (composed_applyRule c hc goal hbranch).arrives ended hreach c.options
      s.position s hbound (Nat.le_refl _)
    refine ⟨harrives.1, ?_⟩
    intro a s' heq
    constructor
    · intro htakes
      have hholds := harrives.2 a s' heq
      unfold Goal.stageAfter at hholds
      rw [if_pos (.inl htakes)] at hholds
      exact hholds
    · intro hgoal hlt
      have hstatement : goal = .statement := by
        rcases hgoal with hstatement | hbranch'
        · exact hstatement
        · exact absurd hbranch' hbranch
      subst hstatement
      have hmoves := (composed_applyRule_statement c hc).arrives ended hreach c.options
        s.position s hbound ⟨Nat.le_refl _, hlt⟩
      exact hmoves.2 a s' heq

theorem steady_grammar (ended : stream.Ended) (budget : Nat) :
    Strategy.Steady stream (grammar budget) := by
  induction budget with
  | zero =>
      intro goal c s hc hbound
      exact ⟨.refl hbound, nofun⟩
  | succ budget ih =>
      intro goal c s hc hbound
      exact steady_applyRule ended ih goal c s hc hbound

end

end Grammar
end ScriptHints

import ScriptHints.Proofs.Reader.Progress

/-!
# What readings keep

A property of states that no step of a reading breaks still holds when the reading has ended,
whether it succeeds or not. A reading that may not recover takes fewer kinds of steps: it
reports nothing and skips nothing.
-/

namespace ScriptHints
namespace Grammar

open Syntax Token

structure Unbroken (stream : TokenStream) (o : Options) (P : State → Prop) : Prop where
  placed (position : Nat) (s : State) : P s -> P { s with position := position }
  added (c : Context) (start : Nat) (node : Node) (s : State) :
    node.isSkipped = false -> P s -> P (s.added c start node)
  skipped (c : Context) (start : Nat) (text : String) (s : State) :
    o.recover = true -> P s -> P (s.added c start (.skipped text))
  reported (level : Level) (message : String) (position : Nat) (s : State) :
    o.recover = true -> P s ->
      P (s.reported ⟨level, message, some (Span.ofToken (stream.get position))⟩)

def Strategy.Upholds (stream : TokenStream) (o : Options) (P : State → Prop) (reach : Strategy) :
    Prop :=
  forall goal (c : Context) s, c.stream = stream -> s.position ≤ stream.size -> P s ->
    P (finalState (reach goal (c.under o) s))

section

variable {stream : TokenStream} {o : Options} {P : State → Prop}

/-!
## Single steps
-/

namespace Unbroken

theorem moved (h : Unbroken stream o P) (c : Context) {s : State} (hs : P s) : P (s.moved c) := by
  unfold State.moved
  split
  next => exact h.placed _ s hs
  next => exact hs

theorem afterReport (h : Unbroken stream o P) {c : Context} (hc : c.stream = stream)
    (hrecover : o.recover = true) {s : State} (hs : P s) (level : Level) (message : String)
    (position : Nat) :
    P (if c.options.report then
      s.reported ⟨level, message, some (Span.ofToken (c.stream.get position))⟩ else s) := by
  rw [hc]
  split
  next => exact h.reported level message position s hrecover hs
  next => exact hs

theorem expect (h : Unbroken stream o P) (c : Context) (mark : Punctuator) (what : Expectation)
    {s : State} (hs : P s) : P (finalState (expect c mark what s)) := by
  rw [expect_eq]
  split
  next => exact h.moved c hs
  next => exact hs

theorem closing (h : Unbroken stream o P) (c : Context) (hc : c.stream = stream) (mark : Punctuator)
    (what : Expectation) {s : State} (hs : P s) :
    P (finalState (expectClosing (c.under o) mark what s)) := by
  rw [expectClosing_eq]
  split
  next hclosed =>
    rw [warnClosedByEnd_eq]
    exact h.afterReport (c := c.under o) hc hclosed.2 hs _ _ s.position
  next => exact h.expect (c.under o) mark what hs

theorem closedByEnd (h : Unbroken stream o P) (c : Context) (hc : c.stream = stream) (atEnd : Bool)
    (a : α) (what : Expectation) (fault : SyntaxFault) {s : State} (hs : P s) :
    P (finalState ((if atEnd && o.recover then do
        warnClosedByEnd (c.under o) what
        return a
      else fail (c.under o) fault : Reader α) s)) := by
  by_cases hclosed : (atEnd && o.recover) = true
  · rw [if_pos hclosed, bind_of_ok (warnClosedByEnd_eq (c.under o) what s)]
    rw [Bool.and_eq_true] at hclosed
    exact h.afterReport (c := c.under o) hc hclosed.2 hs _ _ s.position
  · rw [if_neg hclosed]
    exact hs

theorem missing (h : Unbroken stream o P) (c : Context) (hc : c.stream = stream)
    (hrecover : o.recover = true) {s : State} (hs : P s) :
    P (finalState (missingStatementRule (c.under o) s)) := by
  rw [missingStatementRule_eq, addSince_eq]
  exact h.added _ _ _ _ rfl (h.afterReport (c := c.under o) hc hrecover hs _ _ s.position)

end Unbroken

/-!
## Readings
-/

theorem Composed.upholds {limit : Nat} {k l : Stage} {x : Family α}
    (h : Composed stream limit k x l) (hunbroken : Unbroken stream o P) (ended : stream.Ended)
    {reach : Strategy} (hsteady : reach.Steady stream) (hreach : reach.Upholds stream o P)
    (start : Nat) (s : State) (hbound : s.position ≤ stream.size) (hk : k.Holds stream start s)
    (hs : P s) : P (finalState (x .trusting o reach s)) := by
  induction h generalizing s with
  | pure k a => exact hs
  | @bind _ _ _ _ _ x f hcomposed _ ihx ihf =>
      have hx := ihx s hbound hk hs
      have harrives := hcomposed.arrives ended hsteady o start s hbound hk
      show P (finalState ((x .trusting o reach >>= fun a => f a .trusting o reach) s))
      cases heq : x .trusting o reach s with
      | ok a s₁ =>
          rw [heq] at hx harrives
          rw [bind_of_ok heq]
          exact ihf a s₁ harrives.1.bounded (harrives.2 a s₁ rfl) hx
      | error e s₁ =>
          rw [heq] at hx
          rw [bind_of_error heq]
          exact hx
  | @weaken _ k k' l l' x _ hfrom _ ih =>
      apply ih s hbound _ hs
      rcases hfrom with hsame | hany
      · rw [hsame]
        exact hk
      · rw [hany]
        exact hk.anywhere
  | position k => exact hs
  | @look _ k l f c hc _ ih =>
      have hnext : (c.under o).next s = stream.get s.position := by
        rw [← hc]
        rfl
      show P (finalState ((peek (c.under o) >>= fun t => f t .trusting o reach) s))
      rw [bind_peek, hnext]
      refine ih _ ?_ s hbound (hk.seeing ended) hs
      intro hatToken hend
      rw [hatToken] at hk
      exact absurd ((ended.kind_get_eq_iff _).mp hend) (Nat.not_le_of_lt hk.2)
  | advance c hc hstage => exact hunbroken.moved (c.under o) hs
  | add k c start' node hc hread =>
      show P (finalState (addSince (c.under o) start' node s))
      rw [addSince_eq]
      exact hunbroken.added (c.under o) start' node s hread hs
  | fail => exact hs
  | closing c mark what hc => exact hunbroken.closing c hc mark what hs
  | closedByEnd k c atEnd a what fault hc => exact hunbroken.closedByEnd c hc atEnd a what fault hs
  | @missing c x hc _ ih =>
      cases hrecover : o.recover with
      | false =>
          simp only [hrecover, Bool.false_eq_true, if_false]
          exact ih s hbound hk hs
      | true =>
          simp only [hrecover, if_true]
          exact hunbroken.missing c hc hrecover hs
  | reach goal c hc => exact hreach goal c s hc hbound hs

theorem upholds_branchRule (hunbroken : Unbroken stream o P) {reach : Strategy}
    (hreach : reach.Upholds stream o P) (c : Context) (hc : c.stream = stream) (s : State)
    (hbound : s.position ≤ stream.size) (hs : P s) :
    P (finalState (branchRule reach (c.under o) s)) := by
  have hstatement := hreach .statement c s hc hbound hs
  unfold branchRule
  rw [recovering_eq]
  split
  next hrecover =>
    cases heq : reach .statement (c.under o) s with
    | ok id s₁ =>
        rw [heq] at hstatement
        exact hstatement
    | error e s₁ =>
        rw [heq] at hstatement
        simp only [skipStatement_eq, addSince_eq]
        refine hunbroken.skipped _ _ _ _ hrecover (hunbroken.placed _ _ ?_)
        exact hunbroken.afterReport (c := c.under o) hc hrecover hstatement .error
          e.message s.position
  next => exact hstatement

theorem upholds_grammar (hunbroken : Unbroken stream o P) (ended : stream.Ended) (budget : Nat) :
    Strategy.Upholds stream o P (grammar budget) := by
  induction budget with
  | zero =>
      intro goal c s _ _ hs
      exact hs
  | succ budget ih =>
      intro goal c s hc hbound hs
      by_cases hbranch : goal = .branch
      · subst hbranch
        exact upholds_branchRule hunbroken ih c hc s hbound hs
      · exact (composed_applyRule c hc goal hbranch).upholds hunbroken ended
          (steady_grammar ended budget) ih s.position s hbound (Nat.le_refl _) hs

end

end Grammar
end ScriptHints

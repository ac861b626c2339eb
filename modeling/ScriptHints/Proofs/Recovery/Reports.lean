import ScriptHints.Proofs.Reader.Progress

/-!
# Reports

Whether diagnostics are collected makes no difference to a reading but for the
diagnostics themselves: no rule looks at them.
-/

namespace ScriptHints
namespace Grammar

open Syntax Token

def Options.silenced (o : Options) : Options :=
  { o with report := false }

def State.withDiagnostics (s : State) (ds : Diagnostics) : State :=
  { s with diagnostics := ds }

/-- Two readings end in the same way up to diagnostics, and the second one keeps those that
it started with. -/
inductive Hushed (ds : Diagnostics) :
    EStateM.Result SyntaxError State α → EStateM.Result SyntaxError State α → Prop where
  | ok (a : α) (s : State) : Hushed ds (.ok a s) (.ok a (s.withDiagnostics ds))
  | error (e : SyntaxError) (s : State) : Hushed ds (.error e s) (.error e (s.withDiagnostics ds))

section

variable {stream : TokenStream} {ds : Diagnostics}

def Strategy.Hushed (stream : TokenStream) (ds : Diagnostics) (reach : Strategy) : Prop :=
  forall goal (c : Context) (o : Options) s, c.stream = stream ->
    s.position ≤ stream.size -> Grammar.Hushed ds (reach goal (c.under o) s)
      (reach goal (c.under o.silenced) (s.withDiagnostics ds))

theorem hushed_moved (c : Context) (o o' : Options) (s : State) :
    (s.withDiagnostics ds).moved (c.under o') = (s.moved (c.under o)).withDiagnostics ds := by
  unfold State.moved
  have hsame : (s.withDiagnostics ds).position < (c.under o').stream.size ↔
      s.position < (c.under o).stream.size := Iff.rfl
  by_cases h : s.position < (c.under o).stream.size
  · rw [if_pos h, if_pos (hsame.mpr h)]
    rfl
  · rw [if_neg h, if_neg fun h' => h (hsame.mp h')]

theorem hushed_warn (c : Context) (o : Options) (what : Expectation) (s : State) :
    Hushed ds (warnClosedByEnd (c.under o) what s)
      (warnClosedByEnd (c.under o.silenced) what (s.withDiagnostics ds)) := by
  have hquiet : ¬ (c.under o.silenced).options.report = true := nofun
  rw [warnClosedByEnd_eq, warnClosedByEnd_eq, if_neg hquiet]
  split
  next => exact .ok () (s.reported _)
  next => exact .ok () s

theorem hushed_expect (c : Context) (o : Options) (mark : Punctuator) (what : Expectation)
    (s : State) :
    Hushed ds (expect (c.under o) mark what s)
      (expect (c.under o.silenced) mark what (s.withDiagnostics ds)) := by
  rw [expect_eq, expect_eq]
  have hnext : (c.under o.silenced).next (s.withDiagnostics ds) = (c.under o).next s := rfl
  rw [hnext, hushed_moved c o]
  split
  next => exact .ok () _
  next => exact .error _ s

theorem hushed_missing (c : Context) (o : Options) (s : State) :
    Hushed ds (missingStatementRule (c.under o) s)
      (missingStatementRule (c.under o.silenced) (s.withDiagnostics ds)) := by
  have hquiet : ¬ (c.under o.silenced).options.report = true := nofun
  rw [missingStatementRule_eq, missingStatementRule_eq, if_neg hquiet, addSince_eq, addSince_eq]
  split
  next => exact .ok _ ((s.reported _).added (c.under o) s.position .empty)
  next => exact .ok _ (s.added (c.under o) s.position .empty)

theorem Composed.hushed {limit : Nat} {k l : Stage} {x : Family α}
    (h : Composed stream limit k x l) (ended : stream.Ended) {reach : Strategy}
    (hsteady : reach.Steady stream) (hreach : reach.Hushed stream ds) (o : Options)
    (start : Nat) (s : State) (hbound : s.position ≤ stream.size)
    (hk : k.Holds stream start s) :
    Hushed ds (x .trusting o reach s) (x .trusting o.silenced reach (s.withDiagnostics ds)) := by
  induction h generalizing s with
  | pure k a => exact .ok a s
  | @bind _ _ _ _ _ x f hcomposed _ ihx ihf =>
      show Hushed ds ((x .trusting o reach >>= fun a => f a .trusting o reach) s)
        ((x .trusting o.silenced reach >>= fun a => f a .trusting o.silenced reach)
          (s.withDiagnostics ds))
      have hx := ihx s hbound hk
      have harrives := hcomposed.arrives ended hsteady o start s hbound hk
      cases heq : x .trusting o reach s with
      | ok a s₁ =>
          rw [heq] at hx harrives
          cases hquiet : x .trusting o.silenced reach (s.withDiagnostics ds) with
          | ok a' s₁' =>
              rw [hquiet] at hx
              cases hx
              rw [bind_of_ok heq, bind_of_ok hquiet]
              exact ihf a s₁ harrives.1.bounded (harrives.2 a s₁ rfl)
          | error e' s₁' =>
              rw [hquiet] at hx
              cases hx
      | error e s₁ =>
          rw [heq] at hx
          cases hquiet : x .trusting o.silenced reach (s.withDiagnostics ds) with
          | ok a' s₁' =>
              rw [hquiet] at hx
              cases hx
          | error e' s₁' =>
              rw [hquiet] at hx
              cases hx
              rw [bind_of_error heq, bind_of_error hquiet]
              exact .error e s₁
  | @weaken _ k k' l l' x _ hfrom _ ih =>
      apply ih s hbound
      rcases hfrom with hsame | hany
      · rw [hsame]
        exact hk
      · rw [hany]
        exact hk.anywhere
  | position k => exact .ok s.position s
  | @look _ k l f c hc _ ih =>
      show Hushed ds ((peek (c.under o) >>= fun t => f t .trusting o reach) s)
        ((peek (c.under o.silenced) >>= fun t => f t .trusting o.silenced reach)
          (s.withDiagnostics ds))
      have hnext : (c.under o).next s = stream.get s.position := by
        rw [← hc]
        rfl
      have hsame : (c.under o.silenced).next (s.withDiagnostics ds) = (c.under o).next s := rfl
      rw [bind_peek, bind_peek, hsame, hnext]
      refine ih _ ?_ s hbound (hk.seeing ended)
      intro hatToken hend
      rw [hatToken] at hk
      exact absurd ((ended.kind_get_eq_iff _).mp hend) (Nat.not_le_of_lt hk.2)
  | advance c hc hstage =>
      show Hushed ds (.ok () (s.moved (c.under o)))
        (.ok () ((s.withDiagnostics ds).moved (c.under o.silenced)))
      rw [hushed_moved c o]
      exact .ok () _
  | add k c start' node hc =>
      show Hushed ds (addSince (c.under o) start' node s)
        (addSince (c.under o.silenced) start' node (s.withDiagnostics ds))
      rw [addSince_eq, addSince_eq]
      exact .ok _ (s.added (c.under o) start' node)
  | fail k l c fault hc hfault => exact .error _ s
  | closing c mark what hc =>
      show Hushed ds (expectClosing (c.under o) mark what s)
        (expectClosing (c.under o.silenced) mark what (s.withDiagnostics ds))
      rw [expectClosing_eq, expectClosing_eq]
      have hsame : ((c.under o.silenced).next (s.withDiagnostics ds)).kind = .endOfText ∧
          (c.under o.silenced).options.recover = true ↔
          ((c.under o).next s).kind = .endOfText ∧ (c.under o).options.recover = true := Iff.rfl
      by_cases hclosed :
          ((c.under o).next s).kind = .endOfText ∧ (c.under o).options.recover = true
      · rw [if_pos hclosed, if_pos (hsame.mpr hclosed)]
        exact hushed_warn c o what s
      · rw [if_neg hclosed, if_neg fun hclosed' => hclosed (hsame.mp hclosed')]
        exact hushed_expect c o mark what s
  | @closedByEnd _ k c atEnd a what fault hc hfault =>
      have hsame : o.silenced.recover = o.recover := rfl
      by_cases hclosed : (atEnd && o.recover) = true
      · have hquiet : ¬ (c.under o.silenced).options.report = true := nofun
        simp only [hsame, if_pos hclosed]
        rw [bind_of_ok (warnClosedByEnd_eq ..), bind_of_ok (warnClosedByEnd_eq ..),
          if_neg hquiet]
        split
        next => exact .ok a (s.reported _)
        next => exact .ok a s
      · simp only [hsame, if_neg hclosed]
        exact .error _ s
  | @missing c x hc _ ih =>
      cases hrecover : o.recover with
      | false =>
          have hquiet : o.silenced.recover = false := hrecover
          simp only [hrecover, hquiet, Bool.false_eq_true, if_false]
          exact ih s hbound hk
      | true =>
          have hquiet : o.silenced.recover = true := hrecover
          simp only [hrecover, hquiet, if_true]
          exact hushed_missing c o s
  | @reach k goal c hc hlimit => exact hreach goal c o s hc hbound

theorem hushed_branchRule {reach : Strategy} (hreach : reach.Hushed stream ds) (c : Context)
    (o : Options) (hc : c.stream = stream) (s : State) (hbound : s.position ≤ stream.size) :
    Hushed ds (branchRule reach (c.under o) s)
      (branchRule reach (c.under o.silenced) (s.withDiagnostics ds)) := by
  have hstatement := hreach .statement c o s hc hbound
  have hsame : (c.under o.silenced).options.recover = (c.under o).options.recover := rfl
  unfold branchRule
  rw [recovering_eq, recovering_eq, hsame]
  split
  next =>
    cases heq : reach .statement (c.under o) s with
    | ok id s₁ =>
        rw [heq] at hstatement
        cases hother : reach .statement (c.under o.silenced) (s.withDiagnostics ds) with
        | ok id' s₁' =>
            rw [hother] at hstatement
            cases hstatement
            exact .ok id s₁
        | error e' s₁' =>
            rw [hother] at hstatement
            cases hstatement
    | error e s₁ =>
        rw [heq] at hstatement
        cases hother : reach .statement (c.under o.silenced) (s.withDiagnostics ds) with
        | ok id' s₁' =>
            rw [hother] at hstatement
            cases hstatement
        | error e' s₁' =>
            rw [hother] at hstatement
            cases hstatement
            simp only [skipStatement_eq, addSince_eq]
            split
            next => exact .ok _ _
            next => exact .ok _ _
  next => exact hstatement

theorem hushed_grammar (ended : stream.Ended) (ds : Diagnostics) (budget : Nat) :
    Strategy.Hushed stream ds (grammar budget) := by
  induction budget with
  | zero =>
      intro goal c o s _ _
      exact .error _ s
  | succ budget ih =>
      intro goal c o s hc hbound
      show Hushed ds (applyRule (grammar budget) goal (c.under o) s)
        (applyRule (grammar budget) goal (c.under o.silenced) (s.withDiagnostics ds))
      by_cases hbranch : goal = .branch
      · subst hbranch
        exact hushed_branchRule ih c o hc s hbound
      · exact (composed_applyRule c hc goal hbranch).hushed ended (steady_grammar ended budget) ih
          o s.position s hbound (Nat.le_refl _)

end

end Grammar
end ScriptHints

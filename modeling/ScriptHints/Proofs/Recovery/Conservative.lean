import ScriptHints.Proofs.Reader.Progress

/-!
# Recovery as a conservative extension

A recovering reading differs from a strict one in four places: a statement is skipped, a
bracket is closed by the end of the text, a switch is closed by it, and a statement is
missing at the end. Each of the four leaves a diagnostic, and in a strict reading each of
them is an error. A recovering reading without diagnostics is therefore a strict one.
-/

namespace ScriptHints
namespace Grammar

open Syntax Token

def Options.recovering : Options :=
  { recover := true, report := true }

theorem State.reported_diagnostics_ne (s : State) (d : Diagnostic) {s₀ : State}
    (h : s₀.diagnostics.toList <+: s.diagnostics.toList) :
    (s.reported d).diagnostics ≠ s₀.diagnostics := by
  intro heq
  have hlength := congrArg List.length (congrArg Diagnostics.toList heq)
  have hle := h.length_le
  simp only [State.reported, Diagnostics.toList_report, List.length_append, List.length_cons,
    List.length_nil] at hlength
  omega

/-!
## Two readings from one state
-/

/-- What the strict reading accepts the recovering one accepts, and the other way round as
long as no diagnostic is added to those of the state at the beginning. -/
structure Conservative (s : State) (strict recovering : EStateM.Result SyntaxError State α) :
    Prop where
  accepted : forall a s', strict = .ok a s' -> recovering = .ok a s'
  reflected : forall a s', recovering = .ok a s' -> s'.diagnostics = s.diagnostics ->
    strict = .ok a s'

theorem Conservative.refl (s : State) (r : EStateM.Result SyntaxError State α) :
    Conservative s r r :=
  ⟨fun _ _ h => h, fun _ _ h _ => h⟩

theorem Conservative.ofReported {s s' : State} {a : α} {e : SyntaxError} {s₁ : State}
    (h : s'.diagnostics ≠ s.diagnostics) :
    Conservative s (.error e s₁ : EStateM.Result SyntaxError State α) (.ok a s') := by
  refine ⟨nofun, ?_⟩
  intro a' s'' heq hsame
  cases heq
  exact absurd hsame h

section

variable {stream : TokenStream}

/-- Every goal is reached in both modes in the same way, up to recovery. -/
def Strategy.Lockstep (stream : TokenStream) (reach : Strategy) : Prop :=
  forall goal (c : Context) s, c.stream = stream -> s.position ≤ stream.size ->
    Conservative s (reach goal (c.under .strict) s) (reach goal (c.under .recovering) s)

theorem fails_expect_at_end (c : Context) (mark : Punctuator) (what : Expectation) (s : State)
    (hend : (c.next s).kind = .endOfText) :
    expect c mark what s = .error { fault := .expected what, found := c.next s } s := by
  rw [expect_eq, if_neg (by rw [hend]; exact nofun)]

theorem Composed.conservative {limit : Nat} {k l : Stage} {x : Family α}
    (h : Composed stream limit k x l) (ended : stream.Ended) {reach : Strategy}
    (hsteady : reach.Steady stream) (hreach : reach.Lockstep stream) (start : Nat) (s : State)
    (hbound : s.position ≤ stream.size) (hk : k.Holds stream start s) :
    Conservative s (x .trusting .strict reach s) (x .trusting .recovering reach s) := by
  induction h generalizing s with
  | pure k a => exact .refl s _
  | @bind _ _ k m l x f hx hf ihx ihf =>
      show Conservative s ((x .trusting .strict reach >>= fun a => f a .trusting .strict reach) s)
        ((x .trusting .recovering reach >>= fun a => f a .trusting .recovering reach) s)
      have hagree := ihx s hbound hk
      have harrives := hx.arrives ended hsteady .recovering start s hbound hk
      constructor
      · intro b s' hstrict
        rcases bind_ok_iff.mp hstrict with ⟨a, s₁, hxa, hfb⟩
        have hxa' := hagree.accepted a s₁ hxa
        rw [hxa'] at harrives
        have hbound₁ := harrives.1.bounded
        have hk₁ := harrives.2 a s₁ rfl
        exact bind_ok_iff.mpr ⟨a, s₁, hxa', (ihf a s₁ hbound₁ hk₁).accepted b s' hfb⟩
      · intro b s' hrecovering hquiet
        rcases bind_ok_iff.mp hrecovering with ⟨a, s₁, hxa, hfb⟩
        rw [hxa] at harrives
        have hbound₁ := harrives.1.bounded
        have hk₁ := harrives.2 a s₁ rfl
        have hmore := ((hf a).arrives ended hsteady .recovering start s₁ hbound₁ hk₁).1.reported
        rw [hfb] at hmore
        -- Nothing was reported in between, because nothing was reported in the end.
        have hbetween : s₁.diagnostics = s.diagnostics := by
          apply Diagnostics.eq_of_toList_eq
          have hback : s₁.diagnostics.toList <+: s.diagnostics.toList := by
            rw [← hquiet]
            exact hmore
          exact hback.eq_of_length_le harrives.1.reported.length_le
        have hxa' := hagree.reflected a s₁ hxa hbetween
        have hfb' := (ihf a s₁ hbound₁ hk₁).reflected b s' hfb (hquiet.trans hbetween.symm)
        exact bind_ok_iff.mpr ⟨a, s₁, hxa', hfb'⟩
  | @weaken _ k k' l l' x _ hfrom _ ih =>
      apply ih s hbound
      rcases hfrom with hsame | hany
      · rw [hsame]
        exact hk
      · rw [hany]
        exact hk.anywhere
  | position k => exact .refl s _
  | @look _ k l f c hc _ ih =>
      show Conservative s ((peek (c.under .strict) >>= fun t => f t .trusting .strict reach) s)
        ((peek (c.under .recovering) >>= fun t => f t .trusting .recovering reach) s)
      rw [bind_peek, bind_peek]
      have hnext (o : Options) : Context.next (c.under o) s = stream.get s.position := by
        rw [← hc]
        rfl
      rw [hnext, hnext]
      refine ih _ ?_ s hbound (hk.seeing ended)
      intro hatToken hend
      rw [hatToken] at hk
      exact absurd ((ended.kind_get_eq_iff _).mp hend) (Nat.not_le_of_lt hk.2)
  | advance c hc hstage => exact .refl s _
  | add k c start' node hc => exact .refl s _
  | fail k l c fault hc hfault => exact .refl s _
  | closing c mark what hc =>
      show Conservative s (expectClosing (c.under .strict) mark what s)
        (expectClosing (c.under .recovering) mark what s)
      rw [expectClosing_eq, expectClosing_eq, if_neg (fun hclosed => nomatch hclosed.2)]
      by_cases hend : ((c.under .recovering).next s).kind = .endOfText
      · rw [if_pos ⟨hend, rfl⟩, warnClosedByEnd_eq,
          fails_expect_at_end (c.under .strict) mark what s hend]
        exact .ofReported (s.reported_diagnostics_ne _ (List.prefix_refl _))
      · rw [if_neg fun hclosed => hend hclosed.1, expect_eq, expect_eq]
        exact .refl s _
  | @closedByEnd _ k c atEnd a what fault hc hfault =>
      cases atEnd with
      | false => exact .refl s _
      | true =>
          show Conservative s (Grammar.fail (c.under .strict) fault s)
            ((warnClosedByEnd (c.under .recovering) what >>= fun _ => Pure.pure a) s)
          rw [bind_of_ok (warnClosedByEnd_eq (c.under .recovering) what s)]
          exact .ofReported (s.reported_diagnostics_ne _ (List.prefix_refl _))
  | @missing c x hc hx ih =>
      show Conservative s (x .trusting .strict reach s)
        (missingStatementRule (c.under .recovering) s)
      -- At the end of the text the strict reading finds no token for its statement.
      have harrives := hx.arrives ended hsteady .strict s.position s hbound
        ⟨Nat.le_refl _, hk.2⟩
      cases heq : x .trusting .strict reach s with
      | ok a s' =>
          rw [heq] at harrives
          have hmoved : s.position < s'.position := harrives.2 a s' rfl
          have hback : s'.position ≤ stream.size := harrives.1.bounded
          have hatEnd := hk.2
          omega
      | error e s₁ =>
          rw [missingStatementRule_eq]
          exact .ofReported (s.reported_diagnostics_ne _ (List.prefix_refl _))
  | @reach k goal c hc hlimit => exact hreach goal c s hc hbound

theorem conservative_branchRule {reach : Strategy} (hsteady : reach.Steady stream)
    (hreach : reach.Lockstep stream) (c : Context) (hc : c.stream = stream) (s : State)
    (hbound : s.position ≤ stream.size) :
    Conservative s (branchRule reach (c.under .strict) s)
      (branchRule reach (c.under .recovering) s) := by
  have hagree := hreach .statement c s hc hbound
  have hsteps := (hsteady .statement (c.under .recovering) s hc hbound).1
  have hrecover : (c.under .recovering).options.recover = true := rfl
  unfold branchRule
  rw [recovering_eq, recovering_eq, if_neg nofun, if_pos hrecover]
  cases heq : reach .statement (c.under .recovering) s with
  | ok a s₁ =>
      rw [heq] at hagree
      exact hagree
  | error e s₁ =>
      rw [heq] at hagree hsteps
      have hreported := s₁.reported_diagnostics_ne
        ⟨.error, e.message, some (Span.ofToken ((c.under .recovering).stream.get s.position))⟩
        hsteps.reported
      cases hstrict : reach .statement (c.under .strict) s with
      | ok a s' => exact nomatch hagree.accepted a s' hstrict
      | error e' s' =>
          simp only [skipStatement_eq, addSince_eq]
          exact .ofReported hreported

theorem lockstep_grammar (ended : stream.Ended) (budget : Nat) :
    Strategy.Lockstep stream (grammar budget) := by
  induction budget with
  | zero =>
      intro goal c s _ _
      exact .refl s _
  | succ budget ih =>
      intro goal c s hc hbound
      have hsteady := steady_grammar ended budget
      show Conservative s (applyRule (grammar budget) goal (c.under .strict) s)
        (applyRule (grammar budget) goal (c.under .recovering) s)
      by_cases hbranch : goal = .branch
      · subst hbranch
        exact conservative_branchRule hsteady ih c hc s hbound
      · exact (composed_applyRule c hc goal hbranch).conservative ended hsteady ih s.position s
          hbound (Nat.le_refl _)

end

end Grammar
end ScriptHints

import Mathlib
import ScriptHints.Proofs.Recovery.Script

/-!
# The first report of a recovering reading

Where a strict reading fails, a recovering one reports. Up to that point the two are in
the same state, and nothing has been reported. From there on either the error itself
reaches the innermost statement that may be skipped, and its message is reported, or the
end of the text has been reached, where a recovering reading makes do with a report.
-/

namespace ScriptHints
namespace Grammar

open Syntax Token

/-- A diagnostic tells of an error if it has its message, or is about the end of the text. -/
def TellsOf (stream : TokenStream) (e : SyntaxError) (d : Diagnostic) : Prop :=
  (d.level = .error ∧ d.message = e.message) ∨ d.span = some (Span.ofToken stream.stop)

/-!
## First reports
-/

/-- The first diagnostic that was reported between two states has a property. -/
def FirstReport (p : Diagnostic → Prop) (s s' : State) : Prop :=
  exists d rest, s'.diagnostics.toList = s.diagnostics.toList ++ d :: rest ∧ p d

namespace FirstReport

variable {p : Diagnostic → Prop} {s s₁ s' : State}

theorem reported {d : Diagnostic} (h : p d) : FirstReport p s (s.reported d) :=
  ⟨d, [], Diagnostics.toList_report s.diagnostics d, h⟩

theorem later (h : FirstReport p s s₁) (hmore : s₁.diagnostics.toList <+: s'.diagnostics.toList) :
    FirstReport p s s' := by
  rcases h with ⟨d, rest, heq, hd⟩
  rcases hmore with ⟨more, hmore⟩
  refine ⟨d, rest ++ more, ?_, hd⟩
  rw [← hmore, heq, List.append_assoc, List.cons_append]

theorem since (h : FirstReport p s₁ s') (hquiet : s₁.diagnostics = s.diagnostics) :
    FirstReport p s s' := by
  unfold FirstReport at h
  rw [hquiet] at h
  exact h

end FirstReport

/-!
## Two readings up to the first error
-/

/-- If the strict reading fails, the recovering one fails in the same way and without a
report, or the first thing that it reports tells of the error. -/
def FailsAlike (stream : TokenStream) (s : State)
    (strict recovering : EStateM.Result SyntaxError State α) : Prop :=
  forall e s', strict = .error e s' ->
    (recovering = .error e s' ∧ s'.diagnostics = s.diagnostics) ∨
      FirstReport (TellsOf stream e) s (finalState recovering)

section

variable {stream : TokenStream}

theorem FailsAlike.ok {s s' : State} {a : α} {r : EStateM.Result SyntaxError State α} :
    FailsAlike stream s (.ok a s') r := by
  intro e s'' heq
  cases heq

theorem FailsAlike.same {s : State} {r : EStateM.Result SyntaxError State α}
    (hquiet : forall e s', r = .error e s' -> s'.diagnostics = s.diagnostics) :
    FailsAlike stream s r r := by
  intro e s' heq
  exact .inl ⟨heq, hquiet e s' heq⟩

theorem FailsAlike.atEnd {s s' : State} {a : α} {r : EStateM.Result SyntaxError State α}
    {d : Diagnostic} (hspan : d.span = some (Span.ofToken stream.stop))
    (hfinal : s'.diagnostics = (s.reported d).diagnostics) :
    FailsAlike stream s r (.ok a s') := by
  intro e _ _
  have hreported : FirstReport (TellsOf stream e) s (s.reported d) := .reported (.inr hspan)
  right
  apply hreported.later
  show (s.reported d).diagnostics.toList <+: s'.diagnostics.toList
  rw [hfinal]

/-- Every goal that is missed in strict mode is missed alike, or reported. -/
def Strategy.FailsAlike (stream : TokenStream) (reach : Strategy) : Prop :=
  forall goal (c : Context) s, c.stream = stream -> s.position ≤ stream.size ->
    Grammar.FailsAlike stream s (reach goal (c.under .strict) s)
      (reach goal (c.under .recovering) s)

theorem next_at_end {c : Context} (hc : c.stream = stream) {s : State}
    (hend : stream.size ≤ s.position) : c.next s = stream.stop := by
  subst hc
  exact c.stream.get_of_size_le hend

theorem Composed.failsAlike {limit : Nat} {k l : Stage} {x : Family α}
    (h : Composed stream limit k x l) (ended : stream.Ended) {reach : Strategy}
    (hsteady : reach.Steady stream) (hlockstep : reach.Lockstep stream)
    (hreach : reach.FailsAlike stream) (start : Nat) (s : State)
    (hbound : s.position ≤ stream.size) (hk : k.Holds stream start s) :
    FailsAlike stream s (x .trusting .strict reach s) (x .trusting .recovering reach s) := by
  induction h generalizing s with
  | pure k a => exact .ok
  | @bind _ _ k m l x f hx hf ihx ihf =>
      show FailsAlike stream s
        ((x .trusting .strict reach >>= fun a => f a .trusting .strict reach) s)
        ((x .trusting .recovering reach >>= fun a => f a .trusting .recovering reach) s)
      have hstrict := hx.arrives ended hsteady .strict start s hbound hk
      have hrecovering := hx.arrives ended hsteady .recovering start s hbound hk
      cases heq : x .trusting .strict reach s with
      | error e s₁ =>
          have hfirst := ihx s hbound hk e s₁ heq
          rw [bind_of_error heq]
          rintro _ _ ⟨rfl⟩
          rcases hfirst with ⟨hsame, hquiet⟩ | hreport
          · left
            exact ⟨bind_of_error hsame, hquiet⟩
          · right
            -- What comes behind the report of the first part only adds to it.
            cases hfinal : x .trusting .recovering reach s with
            | ok a s₂ =>
                rw [hfinal] at hreport hrecovering
                have hmore := ((hf a).arrives ended hsteady .recovering start s₂
                  hrecovering.1.bounded (hrecovering.2 a s₂ rfl)).1.reported
                rw [bind_of_ok hfinal]
                exact hreport.later hmore
            | error e₂ s₂ =>
                rw [hfinal] at hreport
                rw [bind_of_error hfinal]
                exact hreport
      | ok a s₁ =>
          have haccepted := (hx.conservative ended hsteady hlockstep start s hbound hk).accepted
            a s₁ heq
          rw [heq] at hstrict
          have hquiet : s₁.diagnostics = s.diagnostics := hstrict.1.silent (.inl rfl)
          have hrest := ihf a s₁ hstrict.1.bounded (hstrict.2 a s₁ rfl)
          rw [bind_of_ok heq, bind_of_ok haccepted]
          intro e s' hfails
          rcases hrest e s' hfails with ⟨hsame, hquiet'⟩ | hreport
          · exact .inl ⟨hsame, hquiet'.trans hquiet⟩
          · exact .inr (hreport.since hquiet)
  | @weaken _ k k' l l' x _ hfrom _ ih =>
      apply ih s hbound
      rcases hfrom with hsame | hany
      · rw [hsame]
        exact hk
      · rw [hany]
        exact hk.anywhere
  | position k => exact .ok
  | @look _ k l f c hc _ ih =>
      show FailsAlike stream s ((peek (c.under .strict) >>= fun t => f t .trusting .strict reach) s)
        ((peek (c.under .recovering) >>= fun t => f t .trusting .recovering reach) s)
      rw [bind_peek, bind_peek]
      have hnext (o : Options) : Context.next (c.under o) s = stream.get s.position := by
        rw [← hc]
        rfl
      rw [hnext, hnext]
      refine ih _ ?_ s hbound (hk.seeing ended)
      intro hatToken hend
      rw [hatToken] at hk
      exact absurd ((ended.kind_get_eq_iff _).mp hend) (Nat.not_le_of_lt hk.2)
  | advance c hc hstage => exact .ok
  | add k c start' node hc => exact .ok
  | fail k l c fault hc hfault =>
      refine .same ?_
      rintro _ _ ⟨rfl⟩
      rfl
  | closing c mark what hc =>
      show FailsAlike stream s (expectClosing (c.under .strict) mark what s)
        (expectClosing (c.under .recovering) mark what s)
      rw [expectClosing_eq, expectClosing_eq, if_neg (fun hclosed => nomatch hclosed.2)]
      by_cases hend : ((c.under .recovering).next s).kind = .endOfText
      · have hatEnd := (ended.kind_get_eq_iff s.position).mp (hc ▸ hend)
        have hstop := next_at_end (c := c.under .recovering) hc hatEnd
        rw [if_pos ⟨hend, rfl⟩, warnClosedByEnd_eq]
        exact .atEnd (congrArg (fun t => some (Span.ofToken t)) hstop) rfl
      · rw [if_neg fun hclosed => hend hclosed.1, expect_eq, expect_eq]
        refine .same ?_
        intro e s' heq
        split at heq
        · cases heq
        · cases heq
          rfl
  | @closedByEnd _ k c atEnd a what fault hc hfault hatEnd =>
      cases atEnd with
      | false =>
          refine .same ?_
          rintro _ _ ⟨rfl⟩
          rfl
      | true =>
          show FailsAlike stream s (Grammar.fail (c.under .strict) fault s)
            ((warnClosedByEnd (c.under .recovering) what >>= fun _ => Pure.pure a) s)
          rw [hatEnd rfl] at hk
          have hstop := next_at_end (c := c.under .recovering) hc hk.2
          rw [bind_of_ok (warnClosedByEnd_eq (c.under .recovering) what s)]
          exact .atEnd (congrArg (fun t => some (Span.ofToken t)) hstop) rfl
  | @missing c x hc hx ih =>
      show FailsAlike stream s (x .trusting .strict reach s)
        (missingStatementRule (c.under .recovering) s)
      have hstop := next_at_end (c := c.under .recovering) hc hk.2
      rw [missingStatementRule_eq]
      exact .atEnd (congrArg (fun t => some (Span.ofToken t)) hstop) rfl
  | @reach k goal c hc hlimit => exact hreach goal c s hc hbound

/-!
## The grammar up to the first error
-/

/-- What a strict reading passes on as an error, a recovering one reports at the innermost
branch. -/
theorem failsAlike_branchRule {reach : Strategy} (hreach : reach.FailsAlike stream)
    (c : Context) (hc : c.stream = stream) (s : State) (hbound : s.position ≤ stream.size) :
    FailsAlike stream s (branchRule reach (c.under .strict) s)
      (branchRule reach (c.under .recovering) s) := by
  have hstatement := hreach .statement c s hc hbound
  have hrecover : (c.under .recovering).options.recover = true := rfl
  have hreport : (c.under .recovering).options.report = true := rfl
  unfold branchRule
  rw [recovering_eq, recovering_eq, if_neg nofun, if_pos hrecover]
  intro e s' hfails
  right
  rcases hstatement e s' hfails with ⟨hsame, hquiet⟩ | hfirst
  · rw [hsame]
    simp only [hreport, if_true, skipStatement_eq, addSince_eq]
    have hmessage : FirstReport (TellsOf stream e) s' (s'.reported
        ⟨.error, e.message, some (Span.ofToken ((c.under .recovering).stream.get s.position))⟩) :=
      .reported (.inl ⟨rfl, rfl⟩)
    exact hmessage.since hquiet
  · cases hread : reach .statement (c.under .recovering) s with
    | ok a s₁ =>
        rw [hread] at hfirst
        exact hfirst
    | error e₁ s₁ =>
        rw [hread] at hfirst
        simp only [hreport, if_true, skipStatement_eq, addSince_eq]
        exact hfirst.later (by simp [finalState, State.added, State.reported])

theorem failsAlike_grammar (ended : stream.Ended) (budget : Nat) :
    Strategy.FailsAlike stream (grammar budget) := by
  induction budget with
  | zero =>
      intro goal c s _ _
      refine .same ?_
      rintro _ _ ⟨rfl⟩
      rfl
  | succ budget ih =>
      intro goal c s hc hbound
      have hsteady := steady_grammar ended budget
      have hlockstep := lockstep_grammar ended budget
      show FailsAlike stream s (applyRule (grammar budget) goal (c.under .strict) s)
        (applyRule (grammar budget) goal (c.under .recovering) s)
      by_cases hbranch : goal = .branch
      · subst hbranch
        exact failsAlike_branchRule ih c hc s hbound
      · exact (composed_applyRule c hc goal hbranch).failsAlike ended hsteady hlockstep ih
          s.position s hbound (Nat.le_refl _)

end

/-!
## Scripts
-/

theorem scriptReading_failsAlike (text : String) {stream : TokenStream}
    (h : tokensOf text = .ok stream) :
    FailsAlike stream State.start (scriptReading text stream .strict)
      (scriptReading text stream .recovering) :=
  failsAlike_grammar (ended_tokensOf h) (scriptContext text stream .strict).budget
    (.statements .none) (scriptContext text stream .strict) State.start rfl (Nat.zero_le _)

/-- A strict reading rejects a text with the same error, whether it collects diagnostics
or not. -/
theorem parseScript_error_of_report {text : String} {report : Bool} {e : ParseError}
    (h : parseScript text ⟨false, report⟩ = .error e) : parseScript text .strict = .error e := by
  cases report with
  | true => exact h
  | false =>
      have hsilenced : parseScript text Options.strict.silenced = .error e := h
      rw [parseScript_silenced] at hsilenced
      cases hstrict : parseScript text .strict with
      | ok result =>
          rw [hstrict] at hsilenced
          cases hsilenced
      | error e' =>
          rw [hstrict] at hsilenced
          exact hsilenced

/--
Both modes fail at the same place: if a strict reading rejects a text that has tokens, a
recovering one reports something, and what it reports first is an error with the message of
the strict reading, or is about the end of the text.
-/
theorem first_report_tells_rejection (text : String) (stream : TokenStream) (report : Bool)
    (e : ParseError) (htokens : tokensOf text = .ok stream)
    (hrejected : parseScript text ⟨false, report⟩ = .error e) :
    exists tree ds d rest, parseScript text .recovering = .ok (tree, ds) ∧
      ds.toList = d :: rest ∧
      ((d.level = .error ∧ d.message = e.message) ∨
        d.span = some (Span.ofToken stream.stop)) := by
  have hstrict := parseScript_error_of_report hrejected
  have hfirst := scriptReading_failsAlike text htokens
  rw [parseScript_of_tokens htokens] at hstrict
  rcases recovering_script text htokens true with ⟨tree, ds, _, _, hparse, _⟩
  have hparse : parseScript text .recovering = .ok (tree, ds) := hparse
  have hresult := hparse
  rw [parseScript_of_tokens htokens] at hresult
  cases hread : scriptReading text stream .strict with
  | ok ids s =>
      rw [hread] at hstrict
      cases hstrict
  | error fault s =>
      rw [hread] at hstrict
      cases hstrict
      cases hrecovering : scriptReading text stream .recovering with
      | error e' s' =>
          rw [hrecovering] at hresult
          cases hresult
      | ok ids' s' =>
          rw [hrecovering] at hresult
          cases hresult
          rcases hfirst fault s hread with ⟨hsame, _⟩ | ⟨d, rest, hlist, htells⟩
          · rw [hrecovering] at hsame
            cases hsame
          · rw [hrecovering] at hlist
            exact ⟨_, _, d, rest, hparse, hlist, htells⟩

theorem parseScript_unclosedCall :
    parseScript "f(a" .strict =
      .error (.syntactic ⟨.expected .closeArguments, unclosedCall.stop⟩) := by
  cbv

theorem first_report_tells_rejection_unclosedCall :
    tokensOf "f(a" = .ok unclosedCall ∧
      parseScript "f(a" ⟨false, true⟩ =
        .error (.syntactic ⟨.expected .closeArguments, unclosedCall.stop⟩) ∧
      exists tree ds d rest, parseScript "f(a" .recovering = .ok (tree, ds) ∧
        ds.toList = d :: rest ∧
        ((d.level = .error ∧
            d.message = (ParseError.syntactic
              ⟨.expected .closeArguments, unclosedCall.stop⟩).message) ∨
          d.span = some (Span.ofToken unclosedCall.stop)) :=
  ⟨tokensOf_unclosedCall, parseScript_unclosedCall,
    first_report_tells_rejection "f(a" unclosedCall true _ tokensOf_unclosedCall
      parseScript_unclosedCall⟩

end Grammar
end ScriptHints

import ScriptHints.Proofs.Reader.Machines
import ScriptHints.Proofs.Reader.Progress

/-!
# Budgets

The budget of a parser is never felt. Between two tokens the goals that are reached have
smaller and smaller ranks, so that a budget for all ranks at every token that is left is
enough: with more of it every reading is the same, and no reading ends for lack of it.
-/

namespace ScriptHints
namespace Grammar

open Syntax Token

def Goal.need (goal : Goal) (stream : TokenStream) (s : State) : Nat :=
  rulesPerToken * (stream.size - s.position) + goal.rank

theorem Goal.rank_pos (goal : Goal) : 0 < goal.rank := by
  cases goal <;> exact Nat.succ_pos _

theorem Goal.rank_le (goal : Goal) : goal.rank ≤ 9 := by
  cases goal <;> simp [Goal.rank]

theorem Goal.need_le_budget (goal : Goal) (c : Context) (s : State) :
    goal.need c.stream s ≤ c.budget := by
  have hrank := goal.rank_le
  unfold Goal.need Context.budget rulesPerToken
  omega

/-- What is reached inside a rule needs less than what the rule is for. -/
theorem Goal.need_lt {goal goal' : Goal} {stream : TokenStream} {s s' : State}
    (hle : s.position ≤ s'.position) (hbound : s'.position ≤ stream.size)
    (hless : s.position < s'.position ∨ goal'.rank < goal.rank) :
    goal'.need stream s' < goal.need stream s := by
  have hrank := goal'.rank_le
  have hpos := goal.rank_pos
  unfold Goal.need rulesPerToken
  rcases hless with hmoved | hlower
  · omega
  · omega

/-!
## Readings that do not run out
-/

/-- A second reading ends in the same way, and not for lack of a budget. -/
def Settled (r r' : EStateM.Result SyntaxError State α) : Prop :=
  r' = r ∧ forall e s', r = .error e s' -> e.fault ≠ .exhausted

theorem Settled.ok (a : α) (s : State) :
    Settled (.ok a s : EStateM.Result SyntaxError State α) (.ok a s) := by
  refine ⟨rfl, ?_⟩
  intro e s' heq
  cases heq

theorem Settled.error {e : SyntaxError} (s : State) (h : e.fault ≠ .exhausted) :
    Settled (.error e s : EStateM.Result SyntaxError State α) (.error e s) := by
  refine ⟨rfl, ?_⟩
  intro e' s' heq
  cases heq
  exact h

theorem Settled.bind {x x' : Reader α} {f f' : α → Reader β} {s : State}
    (hx : Settled (x s) (x' s))
    (hf : forall a s₁, x s = .ok a s₁ -> Settled (f a s₁) (f' a s₁)) :
    Settled ((x >>= f) s) ((x' >>= f') s) := by
  rcases hx with ⟨hsame, hfault⟩
  cases heq : x s with
  | ok a s₁ =>
      rw [heq] at hsame
      rw [bind_of_ok heq, bind_of_ok hsame]
      exact hf a s₁ heq
  | error e s₁ =>
      rw [heq] at hsame
      rw [bind_of_error heq, bind_of_error hsame]
      exact .error s₁ (hfault e s₁ heq)

section

variable {stream : TokenStream}

def SettledBehind (stream : TokenStream) (start limit : Nat) (reach reach' : Strategy) : Prop :=
  forall goal c s, c.stream = stream -> s.position ≤ stream.size -> start ≤ s.position ->
    start < s.position ∨ goal.rank < limit -> Settled (reach goal c s) (reach' goal c s)

theorem settled_expect (c : Context) (mark : Punctuator) (what : Expectation) (s : State) :
    Settled (expect c mark what s) (expect c mark what s) := by
  rw [expect_eq]
  split
  next => exact .ok _ _
  next => exact .error _ nofun

variable {m : Machine} [m.Faithful]

theorem Composed.settled {limit : Nat} {k l : Stage} {x : Family α}
    (h : Composed stream limit k x l) (ended : stream.Ended) {reach reach' : Strategy}
    (hsteady : reach.Steady stream) {start : Nat}
    (hreach : SettledBehind stream start limit reach reach') (o : Options) (s : State)
    (hbound : s.position ≤ stream.size) (hk : k.Holds stream start s) :
    Settled (x .trusting o reach s) (x m o reach' s) := by
  induction h generalizing s with
  | pure k a => exact .ok a s
  | @bind _ _ _ _ _ x f hcomposed _ ihx ihf =>
      apply (ihx s hbound hk).bind
      intro a s₁ heq
      have harrives := hcomposed.arrives ended hsteady o start s hbound hk
      rw [heq] at harrives
      exact ihf a s₁ harrives.1.bounded (harrives.2 a s₁ rfl)
  | @weaken _ k k' l l' x _ hfrom _ ih =>
      apply ih s hbound
      rcases hfrom with hsame | hany
      · rw [hsame]
        exact hk
      · rw [hany]
        exact hk.anywhere
  | position k => exact .ok _ s
  | @look _ k l f c hc _ ih =>
      show Settled ((@peek .trusting (c.under o) >>= fun t => f t .trusting o reach) s)
        ((@peek m (c.under o) >>= fun t => f t m o reach') s)
      have hin : s.position ≤ (c.under o).stream.size := by
        rw [← hc] at hbound
        exact hbound
      rw [bind_peek, bind_peek_of_le _ _ hin]
      have hnext : Context.next (c.under o) s = stream.get s.position := by
        rw [← hc]
        rfl
      rw [hnext]
      refine ih _ ?_ s hbound (hk.seeing ended)
      intro hatToken hend
      rw [hatToken] at hk
      exact absurd ((ended.kind_get_eq_iff _).mp hend) (Nat.not_le_of_lt hk.2)
  | @advance k c hc hstage =>
      subst hc
      have hpassed : 0 < s.position ∨ s.position < c.stream.size := by
        rcases hstage with hstage | hstage
        · rw [hstage] at hk
          exact .inr hk.2
        · rw [hstage] at hk
          exact .inl (Nat.lt_of_le_of_lt (Nat.zero_le _) hk)
      show Settled (@Grammar.advance .trusting (c.under o) s)
        (@Grammar.advance m (c.under o) s)
      rw [advance_eq, advance_eq_of_le (c.under o) hbound hpassed]
      exact .ok _ _
  | add k c start' node hc =>
      show Settled (@addSince .trusting (c.under o) start' node s)
        (@addSince m (c.under o) start' node s)
      rw [addSince_eq_trusting, addSince_eq]
      exact .ok _ _
  | fail k l c fault hc hfault =>
      subst hc
      show Settled (@Grammar.fail .trusting _ (c.under o) fault s)
        (@Grammar.fail m _ (c.under o) fault s)
      rw [fail_eq, fail_eq_of_le (c.under o) fault hbound]
      exact .error s hfault
  | closing c mark what hc =>
      subst hc
      show Settled (@expectClosing .trusting (c.under o) mark what s)
        (@expectClosing m (c.under o) mark what s)
      rw [expectClosing_eq_of_le (c.under o) mark what hbound
        (Nat.lt_of_le_of_lt (Nat.zero_le _) hk), expectClosing_eq]
      split
      next =>
        rw [warnClosedByEnd_eq]
        exact .ok _ _
      next => exact settled_expect _ mark what s
  | @closedByEnd _ k c atEnd a what fault hc hfault =>
      subst hc
      by_cases hclosed : (atEnd && o.recover) = true
      · have hwarned := warnClosedByEnd_eq (c.under o) what s
        have hwarned' : @warnClosedByEnd m (c.under o) what s = _ :=
          (warnClosedByEnd_eq_of_le (c.under o) what hbound).trans hwarned
        simp only [if_pos hclosed]
        rw [bind_of_ok hwarned, bind_of_ok hwarned']
        exact .ok a _
      · simp only [if_neg hclosed]
        rw [fail_eq, fail_eq_of_le (c.under o) fault hbound]
        exact .error s hfault
  | @missing c x hc _ ih =>
      cases hrecover : o.recover with
      | false =>
          simp only [hrecover, Bool.false_eq_true, if_false]
          exact ih s hbound hk
      | true =>
          subst hc
          simp only [hrecover, if_true]
          rw [missingStatementRule_eq_of_le (c.under o) hbound, missingStatementRule_eq,
            addSince_eq]
          exact .ok _ _
  | @reach k goal c hc hlimit =>
      refine hreach goal (c.under o) s hc hbound hk.anywhere ?_
      rcases hlimit with hmoved | hlower
      · rw [hmoved] at hk
        exact .inl hk
      · exact .inr hlower

/-!
## The grammar does not run out
-/

theorem settled_branchRule {reach reach' : Strategy} {c : Context} {s : State}
    (hbound : s.position ≤ c.stream.size)
    (h : Settled (reach .statement c s) (reach' .statement c s)) :
    Settled (@branchRule .trusting reach c s) (@branchRule m reach' c s) := by
  unfold branchRule
  rw [recovering_eq_of_le c hbound h.1 h.2, recovering_eq]
  split
  next =>
    cases reach .statement c s with
    | ok id s₁ => exact .ok id s₁
    | error e s₁ =>
        simp only [skipStatement_eq, addSince_eq]
        exact .ok _ _
  next => exact ⟨rfl, h.2⟩

theorem settled_grammar (ended : stream.Ended) (budget more : Nat) (goal : Goal) (c : Context)
    (s : State) (hc : c.stream = stream) (hbound : s.position ≤ stream.size)
    (hneed : goal.need stream s ≤ budget) :
    Settled (@grammar .trusting budget goal c s) (@grammar m (budget + more) goal c s) := by
  induction budget generalizing goal c s with
  | zero =>
      have hpos := goal.rank_pos
      unfold Goal.need at hneed
      omega
  | succ budget ih =>
      have hbehind : SettledBehind stream s.position goal.rank (@grammar .trusting budget)
          (@grammar m (budget + more)) := by
        intro goal' c' s' hc' hbound' hle hless
        have hlt := Goal.need_lt hle hbound' hless
        exact ih goal' c' s' hc' hbound' (by omega)
      have hbudget : budget + 1 + more = budget + more + 1 := by omega
      rw [hbudget]
      show Settled (@applyRule .trusting (@grammar .trusting budget) goal c s)
        (@applyRule m (@grammar m (budget + more)) goal c s)
      by_cases hbranch : goal = .branch
      · subst hbranch hc
        exact settled_branchRule hbound
          (hbehind .statement c s rfl hbound (Nat.le_refl _) (.inr (by decide)))
      · exact (composed_applyRule c hc goal hbranch).settled ended (steady_grammar ended budget)
          hbehind c.options s hbound (Nat.le_refl _)

end

/-- With more than the budget of a context every goal is reached in the same way. -/
theorem grammar_budget_add (c : Context) (ended : c.stream.Ended) (more : Nat) (goal : Goal)
    (s : State) (hbound : s.position ≤ c.stream.size) :
    grammar (c.budget + more) goal c s = grammar c.budget goal c s := by
  exact (settled_grammar (m := .trusting) ended c.budget more goal c s rfl hbound
    (goal.need_le_budget c s)).1

theorem fault_ne_exhausted (c : Context) (ended : c.stream.Ended) (goal : Goal) (s s' : State)
    (e : SyntaxError) (hbound : s.position ≤ c.stream.size)
    (h : grammar c.budget goal c s = .error e s') : e.fault ≠ .exhausted := by
  exact (settled_grammar (m := .trusting) ended c.budget 0 goal c s rfl hbound
    (goal.need_le_budget c s)).2 e s' h

end Grammar
end ScriptHints

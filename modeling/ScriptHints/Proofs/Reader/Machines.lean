import ScriptHints.Proofs.Reader.Outcome

/-!
# Machines

A machine is faithful if it looks tokens up like the trusting machine wherever there is a
token, and handles errors like it as long as none of them says that a reading stopped. On
a faithful machine every step of a reading has the outcome that it has on the trusting one,
provided that the position is among the tokens, and that a token has been read when the
end of the text is to be passed.
-/

namespace ScriptHints
namespace Grammar

open Syntax Token

class Machine.Faithful (m : Machine) : Prop where
  look_eq (stream : TokenStream) (index : Nat) (s : State) :
    index ≤ stream.size -> m.look stream index s = .ok (stream.get index) s
  attempt_eq {α : Type} (read : Reader α) (handle : SyntaxError → Reader α) (s : State) :
    (forall e s', read s = .error e s' -> e.fault ≠ .exhausted) ->
      m.attempt read handle s = (tryCatch read handle : Reader α) s

instance Machine.faithful_trusting : Machine.trusting.Faithful where
  look_eq _ _ _ _ := rfl
  attempt_eq _ _ _ _ := rfl

instance Machine.faithful_checked : Machine.checked.Faithful where
  look_eq stream index s h := by
    have hin : 0 ≤ (index : Int) ∧ (index : Int) ≤ stream.size :=
      ⟨Int.natCast_nonneg index, Int.ofNat_le.mpr h⟩
    show (if 0 ≤ (index : Int) ∧ (index : Int) ≤ stream.size then _ else _ : Reader Token) s = _
    rw [if_pos hin]
    rfl
  attempt_eq read handle s h := by
    show EStateM.tryCatch read _ s = EStateM.tryCatch read handle s
    unfold EStateM.tryCatch
    cases hread : read s with
    | ok a s₁ => rfl
    | error e s₁ =>
        simp only [if_neg (h e s₁ hread)]

variable [m : Machine] [m.Faithful]

/-!
## Looking and moving
-/

theorem peek_eq_of_le (c : Context) {s : State} (h : s.position ≤ c.stream.size) :
    peek c s = .ok (c.next s) s :=
  Machine.Faithful.look_eq c.stream s.position s h

theorem bind_peek_of_le (c : Context) (f : Token → Reader α) {s : State}
    (h : s.position ≤ c.stream.size) : (peek c >>= f) s = f (c.next s) s :=
  bind_of_ok (peek_eq_of_le c h)

/-- The token behind which a reading moves is there to be looked at. -/
theorem advance_eq_of_le (c : Context) {s : State} (h : s.position ≤ c.stream.size)
    (hpassed : 0 < s.position ∨ s.position < c.stream.size) :
    advance c s = .ok () (s.moved c) := by
  have hpos : 0 < (s.moved c).position ∧ (s.moved c).position ≤ c.stream.size := by
    unfold State.moved
    split
    next hlt => exact ⟨Nat.succ_pos _, hlt⟩
    next hend => exact ⟨hpassed.resolve_right hend, h⟩
  have hbehind : (((s.moved c).position : Int) - 1) = ((s.moved c).position - 1 : Nat) := by
    omega
  unfold advance
  rw [bind_peek_of_le c _ h]
  show (Machine.look c.stream (((s.moved c).position : Int) - 1) >>= fun _ => pure ())
    (s.moved c) = _
  rw [hbehind, bind_of_ok (Machine.Faithful.look_eq c.stream _ _ (by omega))]
  rfl

theorem fail_eq_of_le (c : Context) (fault : SyntaxFault) {s : State}
    (h : s.position ≤ c.stream.size) :
    (fail c fault : Reader α) s = .error { fault := fault, found := c.next s } s := by
  unfold fail
  rw [bind_peek_of_le c _ h]
  rfl

theorem expect_eq_of_le (c : Context) (mark : Punctuator) (what : Expectation) {s : State}
    (h : s.position ≤ c.stream.size) (hpassed : 0 < s.position) :
    expect c mark what s = @expect .trusting c mark what s := by
  rw [expect_eq]
  unfold expect
  rw [accept_bind_eq, bind_peek_of_le c _ h]
  split
  next => rw [bind_of_ok (advance_eq_of_le c h (.inl hpassed))]; rfl
  next => exact fail_eq_of_le c _ h

theorem addSince_eq_trusting (c : Context) (start : Nat) (node : Node) (s : State) :
    addSince c start node s = @addSince .trusting c start node s := by
  have hfirst := Machine.Faithful.look_eq (m := m) c.stream (min start c.stream.size) s
    (Nat.min_le_right _ _)
  have hlast := Machine.Faithful.look_eq (m := m) c.stream
    (min (max (s.position - 1) (min start c.stream.size)) c.stream.size) s (Nat.min_le_right _ _)
  unfold addSince spanSince
  simp only [bind_assoc]
  rw [bind_position, bind_of_ok hfirst, bind_of_ok hlast]
  rfl

/-!
## Reporting and skipping
-/

theorem warnClosedByEnd_eq_of_le (c : Context) (what : Expectation) {s : State}
    (h : s.position ≤ c.stream.size) :
    warnClosedByEnd c what s = @warnClosedByEnd .trusting c what s := by
  unfold warnClosedByEnd
  rw [bind_peek_of_le c _ h, bind_peek]

theorem expectClosing_eq_of_le (c : Context) (mark : Punctuator) (what : Expectation) {s : State}
    (h : s.position ≤ c.stream.size) (hpassed : 0 < s.position) :
    expectClosing c mark what s = @expectClosing .trusting c mark what s := by
  unfold expectClosing
  rw [peekKind_bind_eq, bind_peek_of_le c _ h, bind_peekKind]
  split
  next => exact warnClosedByEnd_eq_of_le c what h
  next => exact expect_eq_of_le c mark what h hpassed

theorem missingStatementRule_eq_of_le (c : Context) {s : State}
    (h : s.position ≤ c.stream.size) :
    missingStatementRule c s = @missingStatementRule .trusting c s := by
  unfold missingStatementRule
  rw [bind_position, bind_position, bind_peek_of_le c _ h, bind_peek,
    bind_of_ok (report_eq ..), bind_of_ok (report_eq ..)]
  exact addSince_eq_trusting ..

theorem skipTokens_eq_trusting (c : Context) (start left opened : Nat) (s : State)
    (hleft : s.position + left = c.stream.size) :
    skipTokens c start left opened s = @skipTokens .trusting c start left opened s := by
  induction left generalizing opened s with
  | zero =>
      unfold skipTokens
      show (peek c >>= fun _ => pure ()) s = _
      rw [bind_peek_of_le c _ (Nat.le_of_eq hleft)]
      rfl
  | succ left ih =>
      have hlt : s.position < c.stream.size := by omega
      have hadvance := advance_eq_of_le c (Nat.le_of_lt hlt) (.inr hlt)
      have hbehind (opened' : Nat) :
          (advance c >>= fun _ => skipTokens c start left opened') s =
            (@advance .trusting c >>= fun _ => @skipTokens .trusting c start left opened') s := by
        have hmoved : s.moved c = { s with position := s.position + 1 } := if_pos hlt
        rw [bind_of_ok hadvance, bind_advance, hmoved]
        exact ih opened' _ (by simp only; omega)
      unfold skipTokens
      rw [bind_position, bind_position, bind_peek_of_le c _ (Nat.le_of_lt hlt), bind_peek]
      cases skipAt opened (s.position = start) (c.next s) with
      | before => rfl
      | behind => exact hadvance
      | within opened' => exact hbehind opened'

theorem textSince_eq_of_le (c : Context) (start : Nat) {s : State}
    (h : s.position ≤ c.stream.size) :
    textSince c start s = @textSince .trusting c start s := by
  rw [textSince_eq]
  unfold textSince Context.textOf
  rw [bind_position]
  split
  next => rfl
  next hlt =>
    have hlast : ((s.position : Int) - 1) = (s.position - 1 : Nat) := by omega
    rw [hlast, bind_of_ok (Machine.Faithful.look_eq c.stream start s (by omega)),
      bind_of_ok (Machine.Faithful.look_eq c.stream (s.position - 1) s (by omega))]
    rfl

theorem skipStatement_eq_of_le (c : Context) {start : Nat} (s : State)
    (h : start ≤ c.stream.size) :
    skipStatement c start s = @skipStatement .trusting c start s := by
  have hskipped := skipTokens_eq_trusting c start (c.stream.size - start) 0
    { s with position := start } (by simp only; omega)
  rw [skipTokens_eq_skipStop] at hskipped
  have htext := textSince_eq_of_le c start (s := { s with position := c.skipStop start })
    (c.skipStop_le h)
  rw [textSince_eq] at htext
  rw [skipStatement_eq]
  unfold skipStatement
  show (skipTokens c start (c.stream.size - start) 0 >>= _) { s with position := start } = _
  rw [bind_of_ok hskipped, bind_of_ok htext]
  exact addSince_eq_trusting ..

/-- Only what says that a reading stopped is handled in another way. -/
theorem recovering_eq_of_le (c : Context) {read read' : Reader NodeId} {s : State}
    (h : s.position ≤ c.stream.size) (hsame : read' s = read s)
    (hfault : forall e s', read s = .error e s' -> e.fault ≠ .exhausted) :
    recovering c read' s = @recovering .trusting c read s := by
  rw [recovering_eq]
  unfold recovering
  split
  next =>
    rw [bind_position, Machine.Faithful.attempt_eq _ _ _ (by rw [hsame]; exact hfault)]
    show EStateM.tryCatch read' _ s = _
    unfold EStateM.tryCatch
    rw [hsame]
    cases hread : read s with
    | ok id s₁ => rfl
    | error e s₁ =>
        show (Machine.look c.stream s.position >>= fun first =>
          report c .error e.message (Span.ofToken first) >>= fun _ =>
            skipStatement c s.position) s₁ = _
        rw [bind_of_ok (Machine.Faithful.look_eq c.stream s.position s₁ h),
          bind_of_ok (report_eq ..)]
        exact skipStatement_eq_of_le c _ h
  next => exact hsame

end Grammar
end ScriptHints

import ScriptHints.Grammar.Parse

/-!
# Outcomes of readings

A reading ends with a value or with an error, and in a state either way. The equations of
this module tell the outcome of every step that a rule of the grammar is made of, so that
no later proof has to look into the steps themselves.
-/

namespace ScriptHints
namespace Grammar

open Syntax Token

/-- The token that a reading sees next. -/
def Context.next (c : Context) (s : State) : Token :=
  c.stream.get s.position

def State.moved (s : State) (c : Context) : State :=
  if s.position < c.stream.size then { s with position := s.position + 1 } else s

theorem State.tree_moved (s : State) (c : Context) : (s.moved c).tree = s.tree := by
  unfold State.moved
  split <;> rfl

def State.added (s : State) (c : Context) (start : Nat) (node : Node) : State :=
  { s with tree := s.tree.add node (c.spanOf start s.position) }

def State.reported (s : State) (d : Diagnostic) : State :=
  { s with diagnostics := s.diagnostics.report d }

def finalState : EStateM.Result SyntaxError State α → State
  | .ok _ s => s
  | .error _ s => s

/-!
## Sequences
-/

theorem bind_of_ok {x : Reader α} {f : α → Reader β} {s s₁ : State} {a : α}
    (h : x s = .ok a s₁) : (x >>= f) s = f a s₁ := by
  show EStateM.bind x f s = _
  simp only [EStateM.bind, h]

theorem bind_of_error {x : Reader α} {f : α → Reader β} {s s₁ : State} {e : SyntaxError}
    (h : x s = .error e s₁) : (x >>= f) s = .error e s₁ := by
  show EStateM.bind x f s = _
  simp only [EStateM.bind, h]

theorem bind_ok_iff {x : Reader α} {f : α → Reader β} {s s' : State} {b : β} :
    (x >>= f) s = .ok b s' ↔ exists a s₁, x s = .ok a s₁ ∧ f a s₁ = .ok b s' := by
  constructor
  · intro h
    cases hx : x s with
    | ok a s₁ =>
        rw [bind_of_ok hx] at h
        exact ⟨a, s₁, rfl, h⟩
    | error e s₁ =>
        rw [bind_of_error hx] at h
        cases h
  · rintro ⟨a, s₁, hx, hf⟩
    rw [bind_of_ok hx, hf]

theorem pure_ok_iff {a b : α} {s s' : State} :
    (pure a : Reader α) s = .ok b s' ↔ a = b ∧ s = s' := by
  show EStateM.Result.ok a s = .ok b s' ↔ _
  simp

theorem map_ok_iff {x : Reader α} {f : α → β} {s s' : State} {b : β} :
    (f <$> x) s = .ok b s' ↔ exists a, x s = .ok a s' ∧ f a = b := by
  rw [map_eq_pure_bind, bind_ok_iff]
  constructor
  · rintro ⟨a, s₁, hx, hb⟩
    rcases pure_ok_iff.mp hb with ⟨hvalue, hstate⟩
    rw [hstate] at hx
    exact ⟨a, hx, hvalue⟩
  · rintro ⟨a, hx, hb⟩
    exact ⟨a, s', hx, pure_ok_iff.mpr ⟨hb, rfl⟩⟩

/-!
## Looking and moving
-/

theorem advance_eq (c : Context) (s : State) : advance c s = .ok () (s.moved c) := rfl

theorem spanSince_eq (c : Context) (start : Nat) (s : State) :
    spanSince c start s = .ok (c.spanOf start s.position) s := by
  have hlast : c.stream.get (max (s.position - 1) (min start c.stream.size)) =
      c.stream.get (max (s.position - 1) start) := by
    by_cases h : start ≤ c.stream.size
    · rw [Nat.min_eq_left h]
    · have hpast := Nat.le_of_not_le h
      rw [Nat.min_eq_right hpast, c.stream.get_of_size_le (Nat.le_max_right _ _),
        c.stream.get_of_size_le (Nat.le_trans hpast (Nat.le_max_right _ _))]
  show EStateM.Result.ok
    (Span.union (Span.ofToken (c.stream.get (min start c.stream.size)))
      (Span.ofToken (c.stream.get
        (min (max (s.position - 1) (min start c.stream.size)) c.stream.size)))) s = _
  rw [TokenStream.get_min_size, TokenStream.get_min_size, hlast]
  rfl

theorem addSince_eq (c : Context) (start : Nat) (node : Node) (s : State) :
    addSince c start node s = .ok s.tree.nextId (s.added c start node) := by
  unfold addSince
  rw [bind_of_ok (spanSince_eq c start s)]
  rfl

theorem fail_eq (c : Context) (fault : SyntaxFault) (s : State) :
    (fail c fault : Reader α) s = .error { fault := fault, found := c.next s } s := rfl

theorem fail_ne_ok {c : Context} {fault : SyntaxFault} {s s' : State} {a : α} :
    (fail c fault : Reader α) s ≠ .ok a s' := by
  rw [fail_eq]
  exact nofun

theorem report_eq (c : Context) (level : Level) (message : String) (span : Span) (s : State) :
    report c level message span s =
      .ok () (if c.options.report then s.reported ⟨level, message, some span⟩ else s) := by
  unfold report
  cases c.options.report <;> rfl

theorem bind_position (f : Nat → Reader α) (s : State) :
    (position >>= f) s = f s.position s := rfl

theorem bind_peek (c : Context) (f : Token → Reader α) (s : State) :
    (peek c >>= f) s = f (c.next s) s := rfl

theorem bind_peekKind (c : Context) (f : TokenKind → Reader α) (s : State) :
    (peekKind c >>= f) s = f (c.next s).kind s := rfl

theorem bind_advance (c : Context) (f : Unit → Reader α) (s : State) :
    (advance c >>= f) s = f () (s.moved c) := rfl

theorem accept_eq (c : Context) (kind : TokenKind) (s : State) :
    accept c kind s =
      if (c.next s).kind = kind then .ok true (s.moved c) else .ok false s := by
  unfold accept
  rw [bind_peekKind]
  split <;> rfl

theorem bind_accept (c : Context) (kind : TokenKind) (f : Bool → Reader α) (s : State) :
    (accept c kind >>= f) s =
      if (c.next s).kind = kind then f true (s.moved c) else f false s := by
  by_cases h : (c.next s).kind = kind
  · rw [if_pos h]
    exact bind_of_ok (by rw [accept_eq, if_pos h])
  · rw [if_neg h]
    exact bind_of_ok (by rw [accept_eq, if_neg h])

theorem peekKind_bind_eq [Machine] (c : Context) (f : TokenKind → Reader α) :
    (peekKind c >>= f) = (peek c >>= fun t => f t.kind) := by
  unfold peekKind
  simp only [bind_assoc, pure_bind]

theorem accept_bind_eq [Machine] (c : Context) (kind : TokenKind) (f : Bool → Reader α) :
    (accept c kind >>= f) =
      (peek c >>= fun t => if t.kind = kind then advance c >>= fun _ => f true else f false) := by
  unfold accept peekKind
  simp only [bind_assoc, pure_bind]
  congr 1
  funext t
  split
  next => simp only [bind_assoc, pure_bind]
  next => rw [pure_bind]

/-!
## Requirements
-/

theorem expect_eq (c : Context) (mark : Punctuator) (what : Expectation) (s : State) :
    expect c mark what s =
      if (c.next s).kind = .punctuator mark then .ok () (s.moved c)
      else .error { fault := .expected what, found := c.next s } s := by
  unfold expect
  rw [bind_accept]
  split <;> rfl

theorem kind_of_expect_ok {c : Context} {mark : Punctuator} {what : Expectation} {s s₁ : State}
    {b : Unit}
    (h : expect c mark what s = .ok b s₁) :
    (c.next s).kind = .punctuator mark ∧ s₁ = s.moved c := by
  rw [expect_eq] at h
  split at h
  next hkind =>
    cases h
    exact ⟨hkind, rfl⟩
  next => cases h

theorem newName_eq (c : Context) (what : Expectation) (s : State) :
    newName c what s =
      if (c.next s).kind = .identifier then
        .ok s.tree.nextId ((s.moved c).added c s.position (.identifier (c.next s).lexeme))
      else .error { fault := .expected what, found := c.next s } s := by
  unfold newName
  rw [bind_position, bind_peek]
  split
  next =>
    rw [bind_advance, addSince_eq]
    unfold State.moved
    split <;> rfl
  next => rfl

theorem bind_newName (c : Context) (what : Expectation) (f : NodeId → Reader α) (s : State) :
    (newName c what >>= f) s =
      if (c.next s).kind = .identifier then
        f s.tree.nextId ((s.moved c).added c s.position (.identifier (c.next s).lexeme))
      else .error { fault := .expected what, found := c.next s } s := by
  have hname := newName_eq c what s
  split
  next hkind =>
    rw [if_pos hkind] at hname
    rw [bind_of_ok hname]
  next hkind =>
    rw [if_neg hkind] at hname
    rw [bind_of_error hname]

theorem expectClosing_eq (c : Context) (mark : Punctuator) (what : Expectation) (s : State) :
    expectClosing c mark what s =
      if (c.next s).kind = .endOfText ∧ c.options.recover = true then
        warnClosedByEnd c what s
      else expect c mark what s := by
  unfold expectClosing
  rw [bind_peekKind]
  by_cases h : (c.next s).kind = .endOfText ∧ c.options.recover = true
  · rw [if_pos h, if_pos (by simp [h.1, h.2])]
  · rw [if_neg h, if_neg (by simpa using h)]

theorem warnClosedByEnd_eq (c : Context) (what : Expectation) (s : State) :
    warnClosedByEnd c what s =
      .ok () (if c.options.report then
        s.reported ⟨.warning, s!"{what.text}; closed at end of input",
          some (Span.ofToken (c.next s))⟩ else s) := by
  unfold warnClosedByEnd
  rw [bind_peek, report_eq]

theorem missingStatementRule_eq (c : Context) (s : State) :
    missingStatementRule c s =
      addSince c s.position .empty (if c.options.report then
        s.reported ⟨.error, "expected a statement before end of input",
          some (Span.ofToken (c.next s))⟩ else s) := by
  unfold missingStatementRule
  rw [bind_position, bind_peek, bind_of_ok (report_eq ..)]

theorem nested_eq (c : Context) (read : Context → Reader α) (s : State) :
    nested c read s =
      if nestingLimit ≤ c.depth then .error { fault := .tooDeep, found := c.next s } s
      else read { c with depth := c.depth + 1 } s := by
  unfold nested
  split <;> rfl

/-!
## Recovery
-/

def Context.skipStop (c : Context) (start : Nat) : Nat :=
  start + skipped 0 true (c.stream.body.toList.drop start)

theorem Context.skipStop_le (c : Context) {start : Nat} (h : start ≤ c.stream.size) :
    c.skipStop start ≤ c.stream.size := by
  have hle := skipped_le_length 0 true (c.stream.body.toList.drop start)
  rw [List.length_drop, Array.length_toList] at hle
  have hsize : c.stream.size = c.stream.body.size := rfl
  unfold skipStop
  omega

theorem Context.lt_skipStop (c : Context) {start : Nat} (h : start < c.stream.size) :
    start < c.skipStop start := by
  have hlength : start < c.stream.body.toList.length := by
    rw [Array.length_toList]
    exact h
  unfold skipStop
  rw [List.drop_eq_getElem_cons hlength]
  have hpos := skipped_pos 0 c.stream.body.toList[start] (c.stream.body.toList.drop (start + 1))
  omega

theorem Context.drop_eq_next_cons (c : Context) {s : State} (h : s.position < c.stream.size) :
    c.stream.body.toList.drop s.position =
      c.next s :: c.stream.body.toList.drop (s.position + 1) := by
  have hlength : s.position < c.stream.body.toList.length := by
    rw [Array.length_toList]
    exact h
  have hpresent : c.stream.body[s.position]? = some c.stream.body[s.position] :=
    Array.getElem?_eq_getElem h
  rw [List.drop_eq_getElem_cons hlength]
  simp [Context.next, TokenStream.get, hpresent]

theorem skipTokens_eq (c : Context) (start left opened : Nat) (s : State)
    (hstart : start ≤ s.position) (hleft : left = c.stream.size - s.position) :
    skipTokens c start left opened s =
      .ok () { s with
        position := s.position +
          skipped opened (s.position = start) (c.stream.body.toList.drop s.position) } := by
  induction left generalizing opened s with
  | zero =>
      have hnil : c.stream.body.toList.drop s.position = [] := by
        apply List.drop_eq_nil_of_le
        rw [Array.length_toList]
        exact Nat.le_of_sub_eq_zero hleft.symm
      rw [hnil]
      rfl
  | succ left ih =>
      have hlt : s.position < c.stream.size := by omega
      have hmoved : s.moved c = { s with position := s.position + 1 } := if_pos hlt
      have hbehind (opened' : Nat) : skipTokens c start left opened' (s.moved c) =
          .ok () { s with
            position := s.position +
              (1 + skipped opened' false (c.stream.body.toList.drop (s.position + 1))) } := by
        have hpast : decide (s.position + 1 = start) = false := by
          simp only [decide_eq_false_iff_not]
          omega
        rw [hmoved, ih opened' _ (Nat.le_succ_of_le hstart) (by simp only; omega), hpast,
          Nat.add_assoc]
      rw [c.drop_eq_next_cons hlt, skipped_cons, skipTokens, bind_position, bind_peek]
      cases skipAt opened (s.position = start) (c.next s) with
      | before => rfl
      | behind => exact congrArg (EStateM.Result.ok ()) hmoved
      | within opened' => exact hbehind opened'

theorem textSince_eq (c : Context) (start : Nat) (s : State) :
    textSince c start s = .ok (c.textOf start s.position) s := by
  unfold textSince Context.textOf
  rw [bind_position]
  split
  next => rfl
  next hlt =>
    have hlast : ((s.position : Int) - 1).toNat = s.position - 1 := by omega
    show EStateM.Result.ok (c.textBetween _ (c.stream.get ((s.position : Int) - 1).toNat)) s = _
    rw [hlast]
    rfl

theorem skipTokens_eq_skipStop (c : Context) (start : Nat) (s : State) :
    skipTokens c start (c.stream.size - start) 0 { s with position := start } =
      .ok () { s with position := c.skipStop start } := by
  rw [skipTokens_eq c start _ 0 { s with position := start } (Nat.le_refl _) rfl,
    decide_eq_true rfl]
  rfl

theorem skipStatement_eq (c : Context) (start : Nat) (s : State) :
    skipStatement c start s =
      addSince c start (.skipped (c.textOf start (c.skipStop start)))
        { s with position := c.skipStop start } := by
  unfold skipStatement
  show (skipTokens c start (c.stream.size - start) 0 >>= _) { s with position := start } = _
  rw [bind_of_ok (skipTokens_eq_skipStop c start s), bind_of_ok (textSince_eq ..)]

theorem recovering_eq (c : Context) (read : Reader NodeId) (s : State) :
    recovering c read s =
      if c.options.recover = true then
        match read s with
        | .ok id s₁ => .ok id s₁
        | .error e s₁ =>
            skipStatement c s.position (if c.options.report then
              s₁.reported ⟨.error, e.message, some (Span.ofToken (c.stream.get s.position))⟩
              else s₁)
      else read s := by
  unfold recovering
  split
  next =>
    rw [bind_position]
    show EStateM.tryCatch read _ s = _
    unfold EStateM.tryCatch
    cases hread : read s with
    | ok id s₁ => rfl
    | error e s₁ =>
        show (report c .error e.message (Span.ofToken (c.stream.get s.position)) >>=
          fun _ => skipStatement c s.position) s₁ = _
        rw [bind_of_ok (report_eq ..)]
  next => rfl

end Grammar
end ScriptHints

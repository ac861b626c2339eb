import ScriptHints.Proofs.Parallel.Expressions
import ScriptHints.Proofs.Reader.Budget

/-!
# Loops of the grammar

Behind an operand the grammar goes on in a loop: with operators above a floor, or with accesses.
Every iteration of a loop adds a node, and the next one goes on with this node. Where the tokens
end, all loops end, and what has been read is an expression, whatever was looked for.
-/

namespace ScriptHints
namespace Grammar

open Syntax Token

/-!
## Iterations of a loop
-/

inductive Loop where
  /-- Operators of a precedence above the floor. -/
  | operations (floor : Nat)
  /-- Accesses, and calls where they are allowed. -/
  | accesses (calls : Bool)

inductive Iteration where
  | operation (operator : BinaryOperator)
  | name
  | element
  | arguments

def frontRule (reach : Strategy) (c : Context) : Reader NodeId := do
  if (← peekKind c) = .keyword .newWord then
    constructionRule reach c
  else
    operandRule reach c

def Iteration.read (reach : Strategy) (start : Nat) (left : NodeId) (c : Context) :
    Iteration → Reader NodeId
  | .operation operator => do
      advance c
      let right ← reach (.binary operator.precedence) c
      addSince c start (.binary operator left right)
  | .name => do
      advance c
      let name ← propertyName c
      addSince c start (.propertyAccess left name)
  | .element => do
      advance c
      let element ← reach .expression c.allowingIn
      expectClosing c .closeBracket .closeIndex
      addSince c start (.elementAccess left element)
  | .arguments => do
      let arguments ← argumentListRule reach c
      addSince c start (.call left arguments)

namespace Loop

def iteration? (c : Context) (kind : TokenKind) : Loop → Option Iteration
  | .operations floor =>
      match operatorAt? c kind with
      | none => none
      | some operator => if operator.precedence ≤ floor then none else some (.operation operator)
  | .accesses calls =>
      match kind with
      | .punctuator .dot => some .name
      | .punctuator .openBracket => some .element
      | .punctuator .openParen => if calls then some .arguments else none
      | _ => none

def front (reach : Strategy) (c : Context) : Loop → Reader NodeId
  | .operations _ => reach .unary c
  | .accesses _ => frontRule reach c

/-- The iterations behind what has been read since the position `start`. -/
def rest (reach : Strategy) (start : Nat) (left : NodeId) (c : Context) : Loop → Reader NodeId
  | .operations floor => reach (.binaryTail floor start left) c
  | .accesses calls => reach (.memberTail calls start left) c

def whole (reach : Strategy) (c : Context) : Loop → Reader NodeId
  | .operations floor => reach (.binary floor) c
  | .accesses calls => reach (.member calls) c

section

variable (reach : Strategy) (c : Context) (loop : Loop)

theorem whole_applyRule :
    loop.whole (applyRule reach) c =
      (do
        let start ← position
        let left ← loop.front reach c
        loop.rest reach start left c) := by
  cases loop with
  | operations floor => rfl
  | accesses calls =>
      show memberRule reach calls c = _
      unfold memberRule front frontRule
      simp only [bind_assoc]
      congr 1
      funext start
      congr 1
      funext kind
      split
      next => rfl
      next => rfl

theorem rest_applyRule (start : Nat) (left : NodeId) (s : State) :
    loop.rest (applyRule reach) start left c s =
      match loop.iteration? c (c.next s).kind with
      | none => .ok left s
      | some iteration =>
          (iteration.read reach start left c >>= fun joined =>
            loop.rest reach start joined c) s := by
  cases loop with
  | operations floor =>
      show binaryTailRule reach floor start left c s = _
      unfold binaryTailRule iteration?
      rw [bind_peekKind]
      cases hoperator : operatorAt? c (c.next s).kind with
      | none => rfl
      | some operator =>
          dsimp only
          split
          next => rfl
          next => simp only [Iteration.read, rest, bind_assoc]
  | accesses calls =>
      show memberTailRule reach calls start left c s = _
      unfold memberTailRule iteration?
      rw [bind_peekKind]
      cases (c.next s).kind with
      | punctuator mark =>
          cases mark with
          | dot | openBracket => simp only [Iteration.read, rest, bind_assoc]
          | openParen =>
              cases calls with
              | false => rfl
              | true => simp only [Iteration.read, rest, bind_assoc, if_true]
          | _ => rfl
      | _ => rfl

end

inductive Loosens : Loop → Loop → Prop where
  | operations {floor floor' : Nat} :
      floor' ≤ floor ->
      Loosens (.operations floor) (.operations floor')
  | accesses (calls : Bool) :
      Loosens (.accesses calls) (.accesses true)

theorem Loosens.iteration?_eq {loop loop' : Loop} (h : loop.Loosens loop') {c : Context}
    {kind : TokenKind} {iteration : Iteration}
    (hiteration : loop.iteration? c kind = some iteration) :
    loop'.iteration? c kind = some iteration := by
  cases h with
  | @operations floor floor' hle =>
      unfold iteration? at hiteration ⊢
      cases hoperator : operatorAt? c kind with
      | none =>
          rw [hoperator] at hiteration
          cases hiteration
      | some operator =>
          rw [hoperator] at hiteration
          dsimp only at hiteration ⊢
          split at hiteration
          next => cases hiteration
          next habove => rw [if_neg (by omega), hiteration]
  | accesses calls =>
      cases calls with
      | true => exact hiteration
      | false =>
          unfold iteration? at hiteration ⊢
          cases kind with
          | punctuator mark =>
              cases mark with
              | dot | openBracket => exact hiteration
              | _ => cases hiteration
          | _ => cases hiteration

theorem iteration?_endOfText (loop : Loop) (c : Context) : loop.iteration? c .endOfText = none := by
  cases loop <;> rfl

/-- A loop with more iterations ends in the same way where it has no iteration either. -/
theorem Loosens.rest_ok {loop loop' : Loop} (h : loop.Loosens loop') {c : Context}
    {budget start : Nat}
    {left a : NodeId} {s s₁ : State} (hread : loop.rest (grammar budget) start left c s = .ok a s₁)
    (hend : loop'.iteration? c (c.next s₁).kind = none) :
    loop'.rest (grammar budget) start left c s = .ok a s₁ := by
  induction budget generalizing left s with
  | zero =>
      cases loop with
      | operations floor => exact absurd hread fail_ne_ok
      | accesses calls => exact absurd hread fail_ne_ok
  | succ budget ih =>
      have hread : loop.rest (applyRule (grammar budget)) start left c s = .ok a s₁ := hread
      show loop'.rest (applyRule (grammar budget)) start left c s = .ok a s₁
      rw [rest_applyRule] at hread ⊢
      cases hiteration : loop.iteration? c (c.next s).kind with
      | none =>
          rw [hiteration] at hread
          cases hread
          rw [hend]
      | some iteration =>
          rw [hiteration] at hread
          rw [h.iteration?_eq hiteration]
          rcases bind_ok_iff.mp hread with ⟨joined, s₂, hjoined, hrest⟩
          exact bind_ok_iff.mpr ⟨joined, s₂, hjoined, ih hrest⟩

theorem Loosens.whole_ok {loop loop' : Loop} (h : loop.Loosens loop') {c : Context} {budget : Nat}
    {a : NodeId} {s s₁ : State} (hread : loop.whole (grammar budget) c s = .ok a s₁)
    (hend : loop'.iteration? c (c.next s₁).kind = none) :
    loop'.whole (grammar budget) c s = .ok a s₁ := by
  cases budget with
  | zero =>
      cases loop with
      | operations floor => exact absurd hread fail_ne_ok
      | accesses calls => exact absurd hread fail_ne_ok
  | succ budget =>
      have hread : loop.whole (applyRule (grammar budget)) c s = .ok a s₁ := hread
      show loop'.whole (applyRule (grammar budget)) c s = .ok a s₁
      rw [whole_applyRule] at hread ⊢
      have hfront : loop'.front (grammar budget) c = loop.front (grammar budget) c := by
        cases h <;> rfl
      rw [bind_position] at hread ⊢
      rcases bind_ok_iff.mp hread with ⟨left, s₂, hleft, hrest⟩
      rw [hfront]
      exact bind_ok_iff.mpr ⟨left, s₂, hleft, h.rest_ok hrest hend⟩

end Loop

/-!
## Beginnings of expressions
-/

section

variable {reach : Strategy} {c : Context} {s s₁ : State} {a : NodeId}

theorem kind_of_frontRule (h : frontRule reach c s = .ok a s₁) :
    UnaryOperator.ofKind? (c.next s).kind = none ∧ UpdateOperator.ofKind? (c.next s).kind = none ∧
      (c.next s).kind.isSlash = false := by
  unfold frontRule at h
  rw [bind_peekKind] at h
  split at h
  next hnew =>
    rw [hnew]
    exact ⟨rfl, rfl, rfl⟩
  next =>
    unfold operandRule at h
    rw [bind_position, bind_peek] at h
    cases hoperand : operand? (c.next s) with
    | some node =>
        unfold operand? keyLiteral? at hoperand
        repeat' split at hoperand
        all_goals cases hoperand
        all_goals simp only [‹(c.next s).kind = _›]
        all_goals exact ⟨rfl, rfl, rfl⟩
    | none =>
        rw [hoperand] at h
        cases hkind : (c.next s).kind with
        | keyword word =>
            rw [hkind] at h
            cases word with
            | functionWord => exact ⟨rfl, rfl, rfl⟩
            | _ => exact absurd h fail_ne_ok
        | punctuator mark =>
            rw [hkind] at h
            cases mark with
            | openParen | openBracket | openBrace => exact ⟨rfl, rfl, rfl⟩
            | _ => exact absurd h fail_ne_ok
        | _ => exact ⟨rfl, rfl, rfl⟩

/-!
## Rules that change nothing
-/

def Strategy.Tied (stream : TokenStream) (reach : Strategy) : Prop :=
  forall goal c s, c.stream = stream -> s.position ≤ stream.size ->
    reach goal c s = applyRule reach goal c s

theorem tied_grammar {stream : TokenStream} (ended : stream.Ended) {budget : Nat}
    (hbudget : rulesPerToken * (stream.size + 2) ≤ budget) : (grammar budget).Tied stream := by
  intro goal c s hc hbound
  subst hc
  rcases Nat.exists_eq_add_of_le hbudget with ⟨more, rfl⟩
  show grammar (c.budget + more) goal c s = grammar (c.budget + (more + 1)) goal c s
  rw [grammar_budget_add c ended more goal s hbound,
    grammar_budget_add c ended (more + 1) goal s hbound]

end

section

variable {stream : TokenStream} {reach : Strategy} (htied : reach.Tied stream) {c : Context}
  (hc : c.stream = stream) {s s₁ : State} (hs : s.position ≤ stream.size) {a : NodeId}

include htied hc hs

namespace Loop

theorem rest_eq (loop : Loop) (start : Nat) (left : NodeId) :
    loop.rest reach start left c s =
      match loop.iteration? c (c.next s).kind with
      | none => .ok left s
      | some iteration =>
          (iteration.read reach start left c >>= fun joined =>
            loop.rest reach start joined c) s := by
  rw [← rest_applyRule]
  cases loop with
  | operations floor => exact htied (.binaryTail floor start left) c s hc hs
  | accesses calls => exact htied (.memberTail calls start left) c s hc hs

theorem whole_eq (loop : Loop) :
    loop.whole reach c s =
      (loop.front reach c >>= fun left => loop.rest reach s.position left c) s := by
  have hrule : loop.whole reach c s = loop.whole (applyRule reach) c s := by
    cases loop with
    | operations floor => exact htied (.binary floor) c s hc hs
    | accesses calls => exact htied (.member calls) c s hc hs
  rw [hrule, whole_applyRule, bind_position]

theorem whole_of_front (loop : Loop) (hs₁ : s₁.position ≤ stream.size)
    (hend : (c.next s₁).kind = .endOfText) (h : loop.front reach c s = .ok a s₁) :
    loop.whole reach c s = .ok a s₁ := by
  rw [whole_eq htied hc hs, bind_of_ok h, rest_eq htied hc hs₁, hend, iteration?_endOfText]

end Loop

/-!
## Readings up to the end of the text
-/

theorem unary_of_member (hdepth : c.depth < nestingLimit) (hend : (c.next s₁).kind = .endOfText)
    (h : reach (.member true) c.deeper s = .ok a s₁) : reach .unary c s = .ok a s₁ := by
  have hnext : c.deeper.next s = c.next s := rfl
  have hnext₁ : c.deeper.next s₁ = c.next s₁ := rfl
  have hfront := h
  rw [show reach (.member true) c.deeper s = _ from
    Loop.whole_eq htied (c := c.deeper) hc hs (.accesses true)] at hfront
  rcases bind_ok_iff.mp hfront with ⟨front, s₂, hfront, _⟩
  rcases kind_of_frontRule hfront with ⟨hunary, hupdate, _⟩
  rw [hnext] at hunary hupdate
  rw [htied .unary c s hc hs]
  show nested c (unaryRule reach) s = _
  rw [nested_eq, if_neg (Nat.not_le_of_lt hdepth)]
  show unaryRule reach c.deeper s = _
  unfold unaryRule
  rw [bind_position, bind_peekKind, hnext, hunary]
  dsimp only
  rw [hupdate]
  show updateRule reach c.deeper s = _
  unfold updateRule
  rw [bind_position, bind_of_ok h, bind_peek, hnext₁, hend]
  rfl

variable (hs₁ : s₁.position ≤ stream.size) (hend : (c.next s₁).kind = .endOfText)

omit htied hc hs in
include hend in
theorem conditionalRule_of_binary (h : reach (.binary 0) c s = .ok a s₁) :
    conditionalRule reach c s = .ok a s₁ := by
  unfold conditionalRule
  rw [bind_position, bind_of_ok h, bind_accept, hend]
  rfl

include hend in
theorem assignment_of_conditionalRule (h : conditionalRule reach c s = .ok a s₁) :
    reach .assignment c s = .ok a s₁ := by
  rw [htied .assignment c s hc hs]
  show assignmentRule reach c s = _
  unfold assignmentRule
  rw [bind_position, bind_of_ok h, bind_peekKind, hend]
  rfl

include hs₁ hend in
theorem expression_of_assignment (h : reach .assignment c s = .ok a s₁) :
    reach .expression c s = .ok a s₁ := by
  have htail : reach .sequenceTail c s₁ = .ok [] s₁ := by
    rw [htied .sequenceTail c s₁ hc hs₁]
    show sequenceTailRule reach c s₁ = _
    unfold sequenceTailRule
    rw [bind_accept, hend]
    rfl
  rw [htied .expression c s hc hs]
  show expressionRule reach c s = _
  unfold expressionRule
  rw [bind_position, bind_of_ok h, bind_of_ok htail]
  rfl

include hs₁ hend in
theorem expression_of_conditionalRule (h : conditionalRule reach c s = .ok a s₁) :
    reach .expression c s = .ok a s₁ :=
  expression_of_assignment htied hc hs hs₁ hend (assignment_of_conditionalRule htied hc hs hend h)

include hs₁ hend in
theorem expression_of_binary (h : reach (.binary 0) c s = .ok a s₁) :
    reach .expression c s = .ok a s₁ :=
  expression_of_conditionalRule htied hc hs hs₁ hend (conditionalRule_of_binary hend h)

include hs₁ hend in
theorem expression_of_unary (h : reach .unary c s = .ok a s₁) : reach .expression c s = .ok a s₁ :=
  expression_of_binary htied hc hs hs₁ hend
    ((Loop.operations 0).whole_of_front htied hc hs hs₁ hend h)

include hs₁ hend in
theorem expression_of_member (hdepth : c.depth < nestingLimit)
    (h : reach (.member true) c.deeper s = .ok a s₁) : reach .expression c s = .ok a s₁ :=
  expression_of_unary htied hc hs hs₁ hend (unary_of_member htied hc hs hdepth hend h)

theorem kind_of_expression (h : reach .expression c s = .ok a s₁) :
    (c.next s).kind.isSlash = false := by
  rw [htied .expression c s hc hs] at h
  have h : expressionRule reach c s = .ok a s₁ := h
  unfold expressionRule at h
  rw [bind_position] at h
  rcases bind_ok_iff.mp h with ⟨_, _, h, _⟩
  rw [htied .assignment c s hc hs] at h
  have h : assignmentRule reach c s = .ok _ _ := h
  unfold assignmentRule at h
  rw [bind_position] at h
  rcases bind_ok_iff.mp h with ⟨_, _, h, _⟩
  unfold conditionalRule at h
  rw [bind_position] at h
  rcases bind_ok_iff.mp h with ⟨_, _, h, _⟩
  rw [show reach (.binary 0) c s = _ from (Loop.operations 0).whole_eq htied hc hs] at h
  rcases bind_ok_iff.mp h with ⟨_, _, h, _⟩
  have h : reach .unary c s = .ok _ _ := h
  rw [htied .unary c s hc hs] at h
  have h : nested c (unaryRule reach) s = .ok _ _ := h
  rw [nested_eq] at h
  split at h
  next => cases h
  next =>
    have h : unaryRule reach c.deeper s = .ok _ _ := h
    unfold unaryRule at h
    rw [bind_position, bind_peekKind] at h
    have hnext : c.deeper.next s = c.next s := rfl
    rw [hnext] at h
    cases hunary : UnaryOperator.ofKind? (c.next s).kind with
    | some operator => exact unaryOperator_isSlash hunary
    | none =>
        cases hupdate : UpdateOperator.ofKind? (c.next s).kind with
        | some operator => exact updateOperator_isSlash hupdate
        | none =>
            rw [hunary] at h
            dsimp only at h
            rw [hupdate] at h
            have h : updateRule reach c.deeper s = .ok _ _ := h
            unfold updateRule at h
            rw [bind_position] at h
            rcases bind_ok_iff.mp h with ⟨_, _, h, _⟩
            rw [show reach (.member true) c.deeper s = _ from
              Loop.whole_eq htied (c := c.deeper) hc hs (.accesses true)] at h
            rcases bind_ok_iff.mp h with ⟨_, _, h, _⟩
            exact (kind_of_frontRule h).2.2

end

end Grammar
end ScriptHints

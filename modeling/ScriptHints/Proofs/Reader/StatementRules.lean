import ScriptHints.Grammar.Parse
import ScriptHints.Proofs.Reader.ExpressionRules

/-!
# The rules for statements as compositions

One lemma for each rule, as for expressions, and at the end the rules of all goals. Only
the recovery of a branch is no composition, because it catches errors.
-/

namespace ScriptHints
namespace Grammar

open Syntax Token

variable {stream : TokenStream} {limit : Nat} (c : Context)

theorem composed_isLabel (k : Stage) :
    Composed stream limit k (fun _ o _ => isLabel (c.under o)) k := by
  unfold isLabel
  refine .bind (.position k) fun start => ?_
  exact .pure k (decide ((c.stream.get (start + 1)).kind = .punctuator .colon))

variable (hc : c.stream = stream)
include hc

/-!
## Lists of statements
-/

theorem composed_statementsRule (listEnd : ListEnd) :
    Composed stream 9 .anywhere (fun _ o reach => statementsRule reach listEnd (c.under o))
      .anywhere := by
  unfold statementsRule
  refine .lookKind c hc fun t _ => .ite (fun _ => .loose (.pure _ [])) fun hmore => ?_
  have hmoves : t.kind ≠ .endOfText := by
    intro hend
    simp [hend] at hmore
  rw [Stage.seeing_eq_atToken hmoves (by decide)]
  refine .bind (.reach .branch c hc (.inr (by decide))) fun statement => ?_
  refine .bind (.reach (.statements listEnd) c hc (.inl (by decide))) fun more => ?_
  exact .loose (.pure _ _)

/-!
## Declarations and simple statements
-/

theorem composed_variableRule (k : Stage) :
    Composed stream limit k (fun _ o reach => variableRule reach (c.under o)) .moved := by
  unfold variableRule
  refine .bind (.position _) fun start => ?_
  refine .bind (composed_newName c hc .variableName _) fun target => ?_
  refine .accept c hc nofun ?_ fun t => ?_
  · refine .bind (.map some (.reach .assignment c hc (.inl rfl))) fun initializer => ?_
    exact .add .moved c start _ hc rfl
  · refine .bind (.pure .moved none) fun initializer => ?_
    exact .add .moved c start _ hc rfl

theorem composed_variablesRule :
    Composed stream limit .anywhere (fun _ o reach => variablesRule reach (c.under o)) .moved := by
  unfold variablesRule
  refine .bind (composed_variableRule c hc _) fun declared => ?_
  refine .accept c hc nofun ?_ fun t => ?_
  · exact .bind (.reach .variables c hc (.inl rfl)) fun more => .pure .moved _
  · exact .pure .moved _

theorem composed_declarationRule (statement : Bool) {k : Stage} (hk : k = .atToken ∨ k = .moved) :
    Composed stream limit k (fun _ o reach => declarationRule reach statement (c.under o))
      .moved := by
  unfold declarationRule
  refine .bind (.position _) fun start => .bind (.advance c hc hk) fun _ => ?_
  refine .bind (.reach .variables c hc (.inl rfl)) fun declared => .ite (fun _ => ?_) fun _ => ?_
  · refine .bind (composed_endStatement c hc .endOfDeclaration) fun _ => ?_
    exact .add .moved c start _ hc rfl
  · exact .add .moved c start _ hc rfl

theorem composed_emptyRule {k : Stage} (hk : k = .atToken ∨ k = .moved) :
    Composed stream limit k (fun _ o _ => emptyRule (c.under o)) .moved := by
  unfold emptyRule
  refine .bind (.position _) fun start => .bind (.advance c hc hk) fun _ => ?_
  exact .add .moved c start _ hc rfl

theorem composed_expressionStatementRule (k : Stage) (hlimit : 6 < limit) :
    Composed stream limit k (fun _ o reach => expressionStatementRule reach (c.under o))
    .moved := by
  unfold expressionStatementRule
  refine .bind (.position _) fun start => ?_
  refine .bind (m := .moved) (.anyStage (.reach .expression c hc (.inr hlimit)) _)
    fun expression => ?_
  refine .bind (composed_endStatement c hc .endOfExpression) fun _ => ?_
  exact .add .moved c start _ hc rfl

/-!
## Jumps
-/

theorem composed_jumpLabel :
    Composed stream limit .moved (fun _ o _ => jumpLabel (c.under o)) .moved := by
  unfold jumpLabel
  refine .look c hc fun t _ => .ite (fun _ => ?_) fun _ => .pure .moved none
  exact .bind (composed_newName c hc .label _) fun name => .pure .moved _

theorem composed_jumpRule {jump : Option NodeId → Node}
    (hjump : forall label, (jump label).isSkipped = false) {k : Stage}
    (hk : k = .atToken ∨ k = .moved) :
    Composed stream limit k (fun _ o _ => jumpRule jump (c.under o)) .moved := by
  unfold jumpRule
  refine .bind (.position _) fun start => .bind (.advance c hc hk) fun _ => ?_
  refine .bind (composed_jumpLabel c hc) fun label => ?_
  refine .bind (composed_endStatement c hc .endOfJump) fun _ => ?_
  exact .add .moved c start _ hc (hjump label)

theorem composed_returnRule {k : Stage} (hk : k = .atToken ∨ k = .moved) :
    Composed stream limit k (fun _ o reach => returnRule reach (c.under o)) .moved := by
  unfold returnRule
  refine .bind (.position _) fun start => .bind (.advance c hc hk) fun _ => ?_
  refine .look c hc fun t _ => .ite (fun _ => ?_) fun _ => ?_
  · refine .bind (.pure .moved none) fun value => ?_
    refine .bind (composed_endStatement c hc .endOfReturn) fun _ => ?_
    exact .add .moved c start _ hc rfl
  · refine .bind (.map some (.reach .expression c hc (.inl rfl))) fun value => ?_
    refine .bind (composed_endStatement c hc .endOfReturn) fun _ => ?_
    exact .add .moved c start _ hc rfl

theorem composed_throwRule {k : Stage} (hk : k = .atToken ∨ k = .moved) :
    Composed stream limit k (fun _ o reach => throwRule reach (c.under o)) .moved := by
  unfold throwRule
  refine .bind (.position _) fun start => .bind (.advance c hc hk) fun _ => ?_
  refine .look c hc fun t _ => .ite (fun _ => ?_) fun _ => ?_
  · exact .fail .moved .moved c .thrownValue hc nofun
  · refine .bind (.reach .expression c hc (.inl rfl)) fun value => ?_
    refine .bind (composed_endStatement c hc .endOfThrow) fun _ => ?_
    exact .add .moved c start _ hc rfl

/-!
## Conditions and loops
-/

theorem composed_conditionRule (header : Header) (k : Stage) :
    Composed stream limit k (fun _ o reach => conditionRule reach header (c.under o)) .moved := by
  unfold conditionRule
  refine .bind (composed_expect c hc .openParen (.openHeader header) _) fun _ => ?_
  refine .bind (.reach .expression c.allowingIn hc (.inl rfl)) fun condition => ?_
  exact .bind (.closing c .closeParen (.closeHeader header) hc) fun _ => .pure .moved condition

theorem composed_ifRule {k : Stage} (hk : k = .atToken ∨ k = .moved) :
    Composed stream limit k (fun _ o reach => ifRule reach (c.under o)) .moved := by
  unfold ifRule
  refine .bind (.position _) fun start => .bind (.advance c hc hk) fun _ => ?_
  refine .bind (composed_conditionRule c hc .ifElse _) fun condition => ?_
  refine .bind (.reach .branch c hc (.inl rfl)) fun thenBranch => ?_
  refine .accept c hc nofun ?_ fun t => ?_
  · refine .bind (.map some (.reach .branch c hc (.inl rfl))) fun elseBranch => ?_
    exact .add .moved c start _ hc rfl
  · refine .bind (.pure .moved none) fun elseBranch => ?_
    exact .add .moved c start _ hc rfl

theorem composed_whileRule {k : Stage} (hk : k = .atToken ∨ k = .moved) :
    Composed stream limit k (fun _ o reach => whileRule reach (c.under o)) .moved := by
  unfold whileRule
  refine .bind (.position _) fun start => .bind (.advance c hc hk) fun _ => ?_
  refine .bind (composed_conditionRule c hc .whileLoop _) fun condition => ?_
  refine .bind (.reach .branch c hc (.inl rfl)) fun body => ?_
  exact .add .moved c start _ hc rfl

theorem composed_doWhileRule {k : Stage} (hk : k = .atToken ∨ k = .moved) :
    Composed stream limit k (fun _ o reach => doWhileRule reach (c.under o)) .moved := by
  unfold doWhileRule
  refine .bind (.position _) fun start => .bind (.advance c hc hk) fun _ => ?_
  refine .bind (.reach .branch c hc (.inl rfl)) fun body => ?_
  have htail : Composed stream limit .moved
      (fun _ o reach => do
        let condition ← conditionRule reach .doWhileLoop (c.under o)
        let _ ← accept (c.under o) (.punctuator .semicolon)
        addSince (c.under o) start (.doWhileLoop body condition)) .moved := by
    refine .bind (composed_conditionRule c hc .doWhileLoop _) fun condition => ?_
    refine .accept c hc nofun ?_ fun t => ?_
    · exact .add .moved c start _ hc rfl
    · exact .add .moved c start _ hc rfl
  refine .accept c hc nofun htail fun t => ?_
  exact .bind (.fail .moved .moved c .loopCondition hc nofun) fun _ => htail

theorem composed_withRule {k : Stage} (hk : k = .atToken ∨ k = .moved) :
    Composed stream limit k (fun _ o reach => withRule reach (c.under o)) .moved := by
  unfold withRule
  refine .bind (.position _) fun start => .bind (.advance c hc hk) fun _ => ?_
  refine .bind (composed_conditionRule c hc .withObject _) fun subject => ?_
  refine .bind (.reach .branch c hc (.inl rfl)) fun body => ?_
  exact .add .moved c start _ hc rfl

theorem composed_forInitializerRule :
    Composed stream limit .moved (fun _ o reach => forInitializerRule reach (c.under o))
    .moved := by
  unfold forInitializerRule
  refine .lookKind c hc fun t _ => ?_
  split
  next => exact .pure .moved none
  next => exact .map some (composed_declarationRule c.forbiddingIn hc false (.inr rfl))
  next => exact .map some (.reach .expression c.forbiddingIn hc (.inl rfl))

theorem composed_clauseRule (stop : Punctuator) :
    Composed stream limit .moved (fun _ o reach => clauseRule reach stop (c.under o)) .moved := by
  unfold clauseRule
  refine .lookKind c hc fun t _ => .ite (fun _ => .pure .moved none) fun _ => ?_
  exact .map some (.reach .expression c.allowingIn hc (.inl rfl))

theorem composed_forInTailRule (start : Nat) (iterator : NodeId) :
    Composed stream limit .moved
      (fun _ o reach => forInTailRule reach start iterator (c.under o)) .moved := by
  unfold forInTailRule
  refine .bind (.reach .expression c.allowingIn hc (.inl rfl)) fun subject => ?_
  refine .bind (.closing c .closeParen .closeForIn hc) fun _ => ?_
  refine .bind (.reach .branch c hc (.inl rfl)) fun body => ?_
  exact .add .moved c start _ hc rfl

theorem composed_forTailRule (start : Nat) (initializer : Option NodeId) :
    Composed stream limit .moved
      (fun _ o reach => forTailRule reach start initializer (c.under o)) .moved := by
  unfold forTailRule
  refine .bind (composed_expect c hc .semicolon .endOfForInitializer _) fun _ => ?_
  refine .bind (composed_clauseRule c hc .semicolon) fun condition => ?_
  refine .bind (composed_expect c hc .semicolon .endOfForCondition _) fun _ => ?_
  refine .bind (composed_clauseRule c hc .closeParen) fun step => ?_
  refine .bind (.closing c .closeParen .closeFor hc) fun _ => ?_
  refine .bind (.reach .branch c hc (.inl rfl)) fun body => ?_
  exact .add .moved c start _ hc rfl

theorem composed_forRule {k : Stage} (hk : k = .atToken ∨ k = .moved) :
    Composed stream limit k (fun _ o reach => forRule reach (c.under o)) .moved := by
  unfold forRule
  refine .bind (.position _) fun start => .bind (.advance c hc hk) fun _ => ?_
  refine .bind (composed_expect c hc .openParen .openFor _) fun _ => ?_
  refine .bind (composed_forInitializerRule c hc) fun initializer => ?_
  cases initializer with
  | none => exact composed_forTailRule c hc start none
  | some initializer =>
      refine .accept c hc nofun ?_ fun t => ?_
      · exact composed_forInTailRule c hc start initializer
      · exact composed_forTailRule c hc start (some initializer)

/-!
## Switches
-/

theorem composed_caseTailRule (start : Nat) (test : Option NodeId) :
    Composed stream limit .moved
      (fun _ o reach => caseTailRule reach start test (c.under o)) .moved := by
  unfold caseTailRule
  refine .bind (composed_expect c hc .colon .endOfCaseLabel _) fun _ => ?_
  refine .bind (.reach (.statements .closeBraceOrCase) c hc (.inl rfl)) fun body => ?_
  refine .bind (.add .moved c start _ hc rfl) fun case => ?_
  exact .bind (.reach .cases c hc (.inl rfl)) fun more => .pure .moved _

theorem composed_casesRule :
    Composed stream limit .anywhere (fun _ o reach => casesRule reach (c.under o)) .anywhere := by
  unfold casesRule
  refine .bind (.position _) fun start => .lookKind c hc fun t _ => ?_
  have hseeing (h : t.kind ≠ .endOfText) := Stage.seeing_of_ne h .anywhere
  split
  next hkind =>
    refine .bind (.advance c hc (hseeing (by simp [hkind]))) fun _ => ?_
    exact .loose (.pure .moved [])
  next hkind =>
    refine .bind (.advance c hc (hseeing (by simp [hkind]))) fun _ => ?_
    refine .bind (.reach .expression c.allowingIn hc (.inl rfl)) fun test => ?_
    exact .loose (composed_caseTailRule c hc start (some test))
  next hkind =>
    refine .bind (.advance c hc (hseeing (by simp [hkind]))) fun _ => ?_
    exact .loose (composed_caseTailRule c hc start none)
  next =>
    refine .loose (.closedByEnd _ c (t.kind = .endOfText) [] .closeSwitch
      (.expected .caseOrDefault) hc nofun ?_)
    intro hend
    exact Stage.seeing_eq_atEnd (of_decide_eq_true hend) nofun

theorem composed_switchRule {k : Stage} (hk : k = .atToken ∨ k = .moved) :
    Composed stream limit k (fun _ o reach => switchRule reach (c.under o)) .moved := by
  unfold switchRule
  refine .bind (.position _) fun start => .bind (.advance c hc hk) fun _ => ?_
  refine .bind (composed_conditionRule c hc .switchCases _) fun discriminant => ?_
  refine .bind (composed_expect c hc .openBrace .openSwitch _) fun _ => ?_
  refine .bind (.reach .cases c hc (.inl rfl)) fun cases => ?_
  exact .add .moved c start _ hc rfl

/-!
## Exceptions
-/

theorem composed_catchRule {k : Stage} (hk : k = .atToken ∨ k = .moved) :
    Composed stream limit k (fun _ o reach => catchRule reach (c.under o)) .moved := by
  unfold catchRule
  refine .bind (.position _) fun start => .bind (.advance c hc hk) fun _ => ?_
  refine .bind (composed_expect c hc .openParen .openCatch _) fun _ => ?_
  refine .bind (composed_newName c hc .catchParameter _) fun parameter => ?_
  refine .bind (.closing c .closeParen .closeCatch hc) fun _ => ?_
  refine .bind (composed_blockRule c hc .moved) fun body => ?_
  exact .add .moved c start _ hc rfl

theorem composed_handlerRule :
    Composed stream limit .moved (fun _ o reach => handlerRule reach (c.under o)) .moved := by
  unfold handlerRule
  refine .lookKind c hc fun t _ => .ite (fun _ => ?_) fun _ => .pure .moved none
  exact .map some (composed_catchRule c hc (.inr rfl))

theorem composed_finalizerRule :
    Composed stream limit .moved (fun _ o reach => finalizerRule reach (c.under o)) .moved := by
  unfold finalizerRule
  refine .accept c hc nofun ?_ fun t => ?_
  · exact .map some (composed_blockRule c hc .moved)
  · exact .pure .moved none

theorem composed_tryRule {k : Stage} (hk : k = .atToken ∨ k = .moved) :
    Composed stream limit k (fun _ o reach => tryRule reach (c.under o)) .moved := by
  unfold tryRule
  refine .bind (.position _) fun start => .bind (.advance c hc hk) fun _ => ?_
  refine .bind (composed_blockRule c hc .moved) fun body => ?_
  refine .bind (composed_handlerRule c hc) fun handler => ?_
  refine .bind (composed_finalizerRule c hc) fun finalizer => .ite (fun _ => ?_) fun _ => ?_
  · exact .fail .moved .moved c .handler hc nofun
  · exact .add .moved c start _ hc rfl

/-!
## All forms
-/

theorem composed_labeledRule (k : Stage) :
    Composed stream limit k (fun _ o reach => labeledRule reach (c.under o)) .moved := by
  unfold labeledRule
  refine .bind (.position _) fun start => ?_
  refine .bind (composed_newName c hc .label _) fun label =>
    .bind (.advance c hc (.inr rfl)) fun _ => ?_
  refine .bind (.reach .branch c hc (.inl rfl)) fun body => ?_
  exact .add .moved c start _ hc rfl

theorem composed_statementRule {k l : Stage}
    (hstages : k = .atToken ∧ l = .moved ∨ k = .anywhere ∧ l = .anywhere) :
    Composed stream 7 k (fun _ o reach => statementRule reach (c.under o)) l := by
  have hmoved {k : Stage} {x : Family NodeId} (h : Composed stream 7 k x .moved) :
      Composed stream 7 k x l := by
    refine .weaken h (.inl rfl) ?_
    rcases hstages with ⟨_, hl⟩ | ⟨_, hl⟩
    · exact .inl hl.symm
    · exact .inr hl
  unfold statementRule
  refine .lookKind c hc fun t hatToken => ?_
  have hseeing (h : t.kind ≠ .endOfText) := Stage.seeing_of_ne h k
  split
  next hkind => exact hmoved (composed_blockRule c hc _)
  next hkind => exact hmoved (composed_emptyRule c hc (hseeing (by simp [hkind])))
  next hkind => exact hmoved (composed_declarationRule c hc true (hseeing (by simp [hkind])))
  next hkind => exact hmoved (composed_ifRule c hc (hseeing (by simp [hkind])))
  next hkind => exact hmoved (composed_doWhileRule c hc (hseeing (by simp [hkind])))
  next hkind => exact hmoved (composed_whileRule c hc (hseeing (by simp [hkind])))
  next hkind => exact hmoved (composed_forRule c hc (hseeing (by simp [hkind])))
  next hkind => exact hmoved (composed_jumpRule c hc (fun _ => rfl) (hseeing (by simp [hkind])))
  next hkind => exact hmoved (composed_jumpRule c hc (fun _ => rfl) (hseeing (by simp [hkind])))
  next hkind => exact hmoved (composed_returnRule c hc (hseeing (by simp [hkind])))
  next hkind => exact hmoved (composed_withRule c hc (hseeing (by simp [hkind])))
  next hkind => exact hmoved (composed_switchRule c hc (hseeing (by simp [hkind])))
  next hkind => exact hmoved (composed_throwRule c hc (hseeing (by simp [hkind])))
  next hkind => exact hmoved (composed_tryRule c hc (hseeing (by simp [hkind])))
  next hkind => exact hmoved (composed_functionRule c hc true (hseeing (by simp [hkind])))
  next =>
    refine .bind (composed_isLabel c _) fun label => .ite (fun _ => ?_) fun _ => ?_
    · exact hmoved (composed_labeledRule c hc _)
    · exact hmoved (composed_expressionStatementRule c hc _ (by decide))
  next hkind =>
    rcases hstages with ⟨hk, _⟩ | ⟨hk, hl⟩
    · exact absurd hkind (hatToken hk)
    · have hatEnd : k.seeing t = .atEnd := by
        rw [hk, Stage.seeing, if_neg (by decide), if_pos hkind]
      rw [hatEnd, hl]
      exact .missing c hc (composed_expressionStatementRule c hc _ (by decide))
  next => exact hmoved (composed_expressionStatementRule c hc _ (by decide))

/-!
## All goals
-/

theorem composed_applyRule (goal : Goal) (hbranch : goal ≠ .branch) :
    Composed stream goal.rank .anywhere (fun _ o reach => applyRule reach goal (c.under o))
      (goal.stageAfter .anywhere) := by
  cases goal with
  | branch => exact absurd rfl hbranch
  | statements listEnd => exact composed_statementsRule c hc listEnd
  | statement =>
      exact composed_nested c hc fun deeper hdeeper =>
        composed_statementRule deeper hdeeper (.inr ⟨rfl, rfl⟩)
  | «variables» => exact .loose (composed_variablesRule c hc)
  | cases => exact composed_casesRule c hc
  | parameters => exact .loose (composed_parametersRule c hc)
  | expression => exact composed_expressionRule c hc
  | sequenceTail => exact composed_sequenceTailRule c hc
  | assignment => exact composed_assignmentRule c hc
  | binary floor => exact composed_binaryRule c hc floor
  | binaryTail floor start left => exact composed_binaryTailRule c hc floor start left
  | unary => exact composed_nested c hc composed_unaryRule
  | member calls => exact composed_memberRule c hc calls
  | memberTail calls start front => exact composed_memberTailRule c hc calls start front
  | arguments => exact .loose (composed_argumentsRule c hc)
  | elements => exact composed_elementsRule c hc
  | properties => exact .loose (composed_propertiesRule c hc)

theorem composed_applyRule_statement :
    Composed stream 7 .atToken (fun _ o reach => applyRule reach .statement (c.under o))
      .moved :=
  composed_nested c hc fun deeper hdeeper =>
    composed_statementRule deeper hdeeper (.inl ⟨rfl, rfl⟩)

end Grammar
end ScriptHints

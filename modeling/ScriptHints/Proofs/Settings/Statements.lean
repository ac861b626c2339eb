import ScriptHints.Grammar.Parse
import ScriptHints.Proofs.Settings.Expressions

/-!
# Statements with the settings in the state

The rules for statements once more, and the grammar as a whole. By the number of rules inside
rules, the grammar keeps the settings wherever it is entered and however its reading ends.
-/

namespace ScriptHints
namespace Grammar
namespace Stateful

open Syntax Token

variable {src : Source} {reach : Strategy} {reach' : Grammar.Strategy} {σ : Settings}

/-!
## Lists of statements
-/

def statementsRule (src : Source) (reach : Strategy) (listEnd : ListEnd) :
    Reader (List NodeId) := do
  let kind ← peekKind src
  if kind = .endOfText || listEnd.covers kind then
    return []
  else
    let statement ← reach .branch
    return statement :: (← reach (.statements listEnd))

theorem RestoresAll.statementsRule (h : RestoresAll src reach reach') (listEnd : ListEnd) :
    Restores σ (statementsRule src reach listEnd)
      (Grammar.statementsRule reach' listEnd (src.context σ)) := by
  refine .bind (.lift _) fun kind => ?_
  split
  · exact .pure _
  · exact .bind (h _ σ) fun statement => .bind (h _ σ) fun rest => .pure _

def branchRule (src : Source) (reach : Strategy) : Reader NodeId :=
  recovering src (reach .statement)

theorem RestoresAll.branchRule (h : RestoresAll src reach reach') :
    Restores σ (branchRule src reach) (Grammar.branchRule reach' (src.context σ)) := by
  exact .recovering (h .statement σ)

/-!
## Declarations and simple statements
-/

def variableRule (src : Source) (reach : Strategy) : Reader NodeId := do
  let start ← position
  let target ← newName src .variableName
  let initialized ← accept src (.punctuator .equal)
  let initializer ← if initialized then some <$> reach .assignment else pure none
  addSince src start (.variable target initializer)

theorem RestoresAll.variableRule (h : RestoresAll src reach reach') :
    Restores σ (variableRule src reach) (Grammar.variableRule reach' (src.context σ)) := by
  refine .bind (.lift _) fun start => .bind (.lift _) fun target => .bind (.lift _) fun more => ?_
  split
  · exact .bind (.map some (h _ σ)) fun initializer => .lift _
  · exact .bind (.pure _) fun initializer => .lift _

def variablesRule (src : Source) (reach : Strategy) : Reader (List NodeId) := do
  let declared ← variableRule src reach
  if ← accept src (.punctuator .comma) then
    return declared :: (← reach .variables)
  else
    return [declared]

theorem RestoresAll.variablesRule (h : RestoresAll src reach reach') :
    Restores σ (variablesRule src reach) (Grammar.variablesRule reach' (src.context σ)) := by
  refine .bind h.variableRule fun declared => .bind (.lift _) fun more => ?_
  split
  · exact .bind (h _ σ) fun rest => .pure _
  · exact .pure _

def declarationRule (src : Source) (reach : Strategy) (statement : Bool) : Reader NodeId := do
  let start ← position
  advance src
  let declared ← reach .variables
  if statement then
    endStatement src .endOfDeclaration
  addSince src start (.variables declared statement)

theorem RestoresAll.declarationRule (h : RestoresAll src reach reach') (statement : Bool) :
    Restores σ (declarationRule src reach statement)
      (Grammar.declarationRule reach' statement (src.context σ)) := by
  refine .bind (.lift _) fun start => .bind (.lift _) fun _ => .bind (h _ σ) fun declared => ?_
  split
  · exact .bind (.lift _) fun _ => .lift _
  · exact .lift _

def expressionStatementRule (src : Source) (reach : Strategy) : Reader NodeId := do
  let start ← position
  let expression ← reach .expression
  endStatement src .endOfExpression
  addSince src start (.expressionStatement expression)

theorem RestoresAll.expressionStatementRule (h : RestoresAll src reach reach') :
    Restores σ (expressionStatementRule src reach)
      (Grammar.expressionStatementRule reach' (src.context σ)) := by
  refine .bind (.lift _) fun start => .bind (h _ σ) fun expression => ?_
  exact .bind (.lift _) fun _ => .lift _

def returnRule (src : Source) (reach : Strategy) : Reader NodeId := do
  let start ← position
  advance src
  let next ← peek src
  let value ← if returnsNothing next then pure none else some <$> reach .expression
  endStatement src .endOfReturn
  addSince src start (.returnValue value)

theorem RestoresAll.returnRule (h : RestoresAll src reach reach') :
    Restores σ (returnRule src reach) (Grammar.returnRule reach' (src.context σ)) := by
  refine .bind (.lift _) fun start => .bind (.lift _) fun _ => .bind (.lift _) fun next => ?_
  split
  · exact .bind (.pure _) fun value => .bind (.lift _) fun _ => .lift _
  · exact .bind (.map some (h _ σ)) fun value => .bind (.lift _) fun _ => .lift _

def throwRule (src : Source) (reach : Strategy) : Reader NodeId := do
  let start ← position
  advance src
  let next ← peek src
  if next.newlineBefore || next.kind = .endOfText then
    fail src .thrownValue
  else
    let value ← reach .expression
    endStatement src .endOfThrow
    addSince src start (.throwValue value)

theorem RestoresAll.throwRule (h : RestoresAll src reach reach') :
    Restores σ (throwRule src reach) (Grammar.throwRule reach' (src.context σ)) := by
  refine .bind (.lift _) fun start => .bind (.lift _) fun _ => .bind (.lift _) fun next => ?_
  split
  · exact .lift _
  · exact .bind (h _ σ) fun value => .bind (.lift _) fun _ => .lift _

/-!
## Conditions and loops
-/

def conditionRule (src : Source) (reach : Strategy) (header : Header) : Reader NodeId := do
  expect src .openParen (.openHeader header)
  let condition ← withIn true (reach .expression)
  expectClosing src .closeParen (.closeHeader header)
  return condition

theorem RestoresAll.conditionRule (h : RestoresAll src reach reach') (header : Header) :
    Restores σ (conditionRule src reach header)
      (Grammar.conditionRule reach' header (src.context σ)) := by
  refine .bind (.lift _) fun _ => .bind (.withIn (h _ _)) fun condition => ?_
  exact .bind (.lift _) fun _ => .pure _

def ifRule (src : Source) (reach : Strategy) : Reader NodeId := do
  let start ← position
  advance src
  let condition ← conditionRule src reach .ifElse
  let thenBranch ← reach .branch
  let hasElse ← accept src (.keyword .elseWord)
  let elseBranch ← if hasElse then some <$> reach .branch else pure none
  addSince src start (.ifElse condition thenBranch elseBranch)

theorem RestoresAll.ifRule (h : RestoresAll src reach reach') :
    Restores σ (ifRule src reach) (Grammar.ifRule reach' (src.context σ)) := by
  refine .bind (.lift _) fun start => .bind (.lift _) fun _ => ?_
  refine .bind (h.conditionRule _) fun condition => .bind (h _ σ) fun thenBranch => ?_
  refine .bind (.lift _) fun hasElse => ?_
  split
  · exact .bind (.map some (h _ σ)) fun elseBranch => .lift _
  · exact .bind (.pure _) fun elseBranch => .lift _

def whileRule (src : Source) (reach : Strategy) : Reader NodeId := do
  let start ← position
  advance src
  let condition ← conditionRule src reach .whileLoop
  let body ← reach .branch
  addSince src start (.whileLoop condition body)

theorem RestoresAll.whileRule (h : RestoresAll src reach reach') :
    Restores σ (whileRule src reach) (Grammar.whileRule reach' (src.context σ)) := by
  refine .bind (.lift _) fun start => .bind (.lift _) fun _ => ?_
  exact .bind (h.conditionRule _) fun condition => .bind (h _ σ) fun body => .lift _

def doWhileRule (src : Source) (reach : Strategy) : Reader NodeId := do
  let start ← position
  advance src
  let body ← reach .branch
  unless ← accept src (.keyword .whileWord) do
    fail src .loopCondition
  let condition ← conditionRule src reach .doWhileLoop
  let _ ← accept src (.punctuator .semicolon)
  addSince src start (.doWhileLoop body condition)

theorem RestoresAll.doWhileRule (h : RestoresAll src reach reach') :
    Restores σ (doWhileRule src reach) (Grammar.doWhileRule reach' (src.context σ)) := by
  refine .bind (.lift _) fun start => .bind (.lift _) fun _ => .bind (h _ σ) fun body => ?_
  refine .bind (.lift _) fun again => ?_
  split
  · refine .bind (h.conditionRule _) fun condition => ?_
    exact .bind (.lift _) fun _ => .lift _
  · refine .bind (.lift _) fun _ => .bind (h.conditionRule _) fun condition => ?_
    exact .bind (.lift _) fun _ => .lift _

def withRule (src : Source) (reach : Strategy) : Reader NodeId := do
  let start ← position
  advance src
  let subject ← conditionRule src reach .withObject
  let body ← reach .branch
  addSince src start (.withObject subject body)

theorem RestoresAll.withRule (h : RestoresAll src reach reach') :
    Restores σ (withRule src reach) (Grammar.withRule reach' (src.context σ)) := by
  refine .bind (.lift _) fun start => .bind (.lift _) fun _ => ?_
  exact .bind (h.conditionRule _) fun subject => .bind (h _ σ) fun body => .lift _

def forInitializerRule (src : Source) (reach : Strategy) : Reader (Option NodeId) := do
  match ← peekKind src with
  | .punctuator .semicolon => return none
  | .keyword .varWord => some <$> withIn false (declarationRule src reach false)
  | _ => some <$> withIn false (reach .expression)

theorem RestoresAll.forInitializerRule (h : RestoresAll src reach reach') :
    Restores σ (forInitializerRule src reach)
      (Grammar.forInitializerRule reach' (src.context σ)) := by
  refine .bind (.lift _) fun kind => ?_
  split
  · exact .pure _
  · exact .map some (.withIn (h.declarationRule false))
  · first
    | exact .map some (.withIn (h _ _))
    | split <;> first | contradiction | exact .map some (.withIn (h _ _))

def clauseRule (src : Source) (reach : Strategy) (stop : Punctuator) : Reader (Option NodeId) := do
  if (← peekKind src) = .punctuator stop then
    return none
  else
    some <$> withIn true (reach .expression)

theorem RestoresAll.clauseRule (h : RestoresAll src reach reach') (stop : Punctuator) :
    Restores σ (clauseRule src reach stop) (Grammar.clauseRule reach' stop (src.context σ)) := by
  refine .bind (.lift _) fun kind => ?_
  split
  · exact .pure _
  · exact .map some (.withIn (h _ _))

def forInTailRule (src : Source) (reach : Strategy) (start : Nat) (iterator : NodeId) :
    Reader NodeId := do
  let subject ← withIn true (reach .expression)
  expectClosing src .closeParen .closeForIn
  let body ← reach .branch
  addSince src start (.forInLoop iterator subject body)

theorem RestoresAll.forInTailRule (h : RestoresAll src reach reach') (start : Nat)
    (iterator : NodeId) :
    Restores σ (forInTailRule src reach start iterator)
      (Grammar.forInTailRule reach' start iterator (src.context σ)) := by
  refine .bind (.withIn (h _ _)) fun subject => .bind (.lift _) fun _ => ?_
  exact .bind (h _ σ) fun body => .lift _

def forTailRule (src : Source) (reach : Strategy) (start : Nat) (initializer : Option NodeId) :
    Reader NodeId := do
  expect src .semicolon .endOfForInitializer
  let condition ← clauseRule src reach .semicolon
  expect src .semicolon .endOfForCondition
  let step ← clauseRule src reach .closeParen
  expectClosing src .closeParen .closeFor
  let body ← reach .branch
  addSince src start (.forLoop initializer condition step body)

theorem RestoresAll.forTailRule (h : RestoresAll src reach reach')
    (start : Nat) (initializer : Option NodeId) :
    Restores σ (forTailRule src reach start initializer)
      (Grammar.forTailRule reach' start initializer (src.context σ)) := by
  refine .bind (.lift _) fun _ => .bind (h.clauseRule _) fun condition => ?_
  refine .bind (.lift _) fun _ => .bind (h.clauseRule _) fun step => ?_
  exact .bind (.lift _) fun _ => .bind (h _ σ) fun body => .lift _

def forRule (src : Source) (reach : Strategy) : Reader NodeId := do
  let start ← position
  advance src
  expect src .openParen .openFor
  match ← forInitializerRule src reach with
  | none => forTailRule src reach start none
  | some initializer =>
      if ← accept src (.keyword .inWord) then
        forInTailRule src reach start initializer
      else
        forTailRule src reach start (some initializer)

theorem RestoresAll.forRule (h : RestoresAll src reach reach') :
    Restores σ (forRule src reach) (Grammar.forRule reach' (src.context σ)) := by
  refine .bind (.lift _) fun start => .bind (.lift _) fun _ => .bind (.lift _) fun _ => ?_
  refine .bind h.forInitializerRule fun initializer => ?_
  cases initializer with
  | none => exact h.forTailRule start none
  | some initializer =>
      refine .bind (.lift _) fun isIn => ?_
      split
      · exact h.forInTailRule start initializer
      · exact h.forTailRule start (some initializer)

/-!
## Switches
-/

def caseTailRule (src : Source) (reach : Strategy) (start : Nat) (test : Option NodeId) :
    Reader (List NodeId) := do
  expect src .colon .endOfCaseLabel
  let body ← reach (.statements .closeBraceOrCase)
  let case ← addSince src start (.switchCase test body)
  return case :: (← reach .cases)

theorem RestoresAll.caseTailRule (h : RestoresAll src reach reach')
    (start : Nat) (test : Option NodeId) :
    Restores σ (caseTailRule src reach start test)
      (Grammar.caseTailRule reach' start test (src.context σ)) := by
  refine .bind (.lift _) fun _ => .bind (h _ σ) fun body => .bind (.lift _) fun case => ?_
  exact .bind (h _ σ) fun rest => .pure _

/-- No case and no closing brace, for which the end of the text may stand. -/
def noCase (src : Source) (kind : TokenKind) : Reader (List NodeId) := do
  if kind = .endOfText && src.options.recover then
    warnClosedByEnd src .closeSwitch
    return []
  else
    fail src (.expected .caseOrDefault)

theorem restores_noCase (src : Source) (kind : TokenKind) :
    Restores σ (noCase src kind)
      (if kind = .endOfText && src.options.recover then do
        warnClosedByEnd (src.context σ) .closeSwitch
        return []
      else fail (src.context σ) (.expected .caseOrDefault)) := by
  unfold noCase
  split
  · exact .bind (.lift _) fun _ => .pure _
  · exact .lift _

def casesRule (src : Source) (reach : Strategy) : Reader (List NodeId) := do
  let start ← position
  match ← peekKind src with
  | .punctuator .closeBrace =>
      advance src
      return []
  | .keyword .caseWord =>
      advance src
      let test ← withIn true (reach .expression)
      caseTailRule src reach start (some test)
  | .keyword .defaultWord =>
      advance src
      caseTailRule src reach start none
  | kind => noCase src kind

theorem RestoresAll.casesRule (h : RestoresAll src reach reach') :
    Restores σ (casesRule src reach) (Grammar.casesRule reach' (src.context σ)) := by
  refine .bind (.lift _) fun start => .bind (.lift _) fun kind => ?_
  split
  · exact .bind (.lift _) fun _ => .pure _
  · refine .bind (.lift _) fun _ => .bind (.withIn (h _ _)) fun test => ?_
    exact h.caseTailRule _ _
  · exact .bind (.lift _) fun _ => h.caseTailRule _ _
  · first
    | exact restores_noCase src _
    | split <;> first | contradiction | exact restores_noCase src _

def switchRule (src : Source) (reach : Strategy) : Reader NodeId := do
  let start ← position
  advance src
  let discriminant ← conditionRule src reach .switchCases
  expect src .openBrace .openSwitch
  let cases ← reach .cases
  addSince src start (.switchCases discriminant cases)

theorem RestoresAll.switchRule (h : RestoresAll src reach reach') :
    Restores σ (switchRule src reach) (Grammar.switchRule reach' (src.context σ)) := by
  refine .bind (.lift _) fun start => .bind (.lift _) fun _ => ?_
  refine .bind (h.conditionRule _) fun discriminant => .bind (.lift _) fun _ => ?_
  exact .bind (h _ σ) fun cases => .lift _

/-!
## Exceptions
-/

def catchRule (src : Source) (reach : Strategy) : Reader NodeId := do
  let start ← position
  advance src
  expect src .openParen .openCatch
  let parameter ← newName src .catchParameter
  expectClosing src .closeParen .closeCatch
  let body ← blockRule src reach
  addSince src start (.catchClause parameter body)

theorem RestoresAll.catchRule (h : RestoresAll src reach reach') :
    Restores σ (catchRule src reach) (Grammar.catchRule reach' (src.context σ)) := by
  refine .bind (.lift _) fun start => .bind (.lift _) fun _ => .bind (.lift _) fun _ => ?_
  refine .bind (.lift _) fun parameter => .bind (.lift _) fun _ => ?_
  exact .bind h.blockRule fun body => .lift _

def handlerRule (src : Source) (reach : Strategy) : Reader (Option NodeId) := do
  if (← peekKind src) = .keyword .catchWord then
    some <$> catchRule src reach
  else
    return none

theorem RestoresAll.handlerRule (h : RestoresAll src reach reach') :
    Restores σ (handlerRule src reach) (Grammar.handlerRule reach' (src.context σ)) := by
  refine .bind (.lift _) fun kind => ?_
  split
  · exact .map some h.catchRule
  · exact .pure _

def finalizerRule (src : Source) (reach : Strategy) : Reader (Option NodeId) := do
  if ← accept src (.keyword .finallyWord) then
    some <$> blockRule src reach
  else
    return none

theorem RestoresAll.finalizerRule (h : RestoresAll src reach reach') :
    Restores σ (finalizerRule src reach) (Grammar.finalizerRule reach' (src.context σ)) := by
  refine .bind (.lift _) fun more => ?_
  split
  · exact .map some h.blockRule
  · exact .pure _

def tryRule (src : Source) (reach : Strategy) : Reader NodeId := do
  let start ← position
  advance src
  let body ← blockRule src reach
  let handler ← handlerRule src reach
  let finalizer ← finalizerRule src reach
  if handler.isNone && finalizer.isNone then
    fail src .handler
  else
    addSince src start (.tryCatch body handler finalizer)

theorem RestoresAll.tryRule (h : RestoresAll src reach reach') :
    Restores σ (tryRule src reach) (Grammar.tryRule reach' (src.context σ)) := by
  refine .bind (.lift _) fun start => .bind (.lift _) fun _ => .bind h.blockRule fun body => ?_
  refine .bind h.handlerRule fun handler => .bind h.finalizerRule fun finalizer => ?_
  split
  · exact .lift _
  · exact .lift _

/-!
## All forms
-/

def labeledRule (src : Source) (reach : Strategy) : Reader NodeId := do
  let start ← position
  let label ← newName src .label
  advance src
  let body ← reach .branch
  addSince src start (.labeled label body)

theorem RestoresAll.labeledRule (h : RestoresAll src reach reach') :
    Restores σ (labeledRule src reach) (Grammar.labeledRule reach' (src.context σ)) := by
  refine .bind (.lift _) fun start => .bind (.lift _) fun label => .bind (.lift _) fun _ => ?_
  exact .bind (h _ σ) fun body => .lift _

def statementRule (src : Source) (reach : Strategy) : Reader NodeId := do
  match ← peekKind src with
  | .punctuator .openBrace => blockRule src reach
  | .punctuator .semicolon => emptyRule src
  | .keyword .varWord => declarationRule src reach true
  | .keyword .ifWord => ifRule src reach
  | .keyword .doWord => doWhileRule src reach
  | .keyword .whileWord => whileRule src reach
  | .keyword .forWord => forRule src reach
  | .keyword .continueWord => jumpRule .continueOn src
  | .keyword .breakWord => jumpRule .breakOff src
  | .keyword .returnWord => returnRule src reach
  | .keyword .withWord => withRule src reach
  | .keyword .switchWord => switchRule src reach
  | .keyword .throwWord => throwRule src reach
  | .keyword .tryWord => tryRule src reach
  | .keyword .functionWord => functionRule src reach true
  | .identifier =>
      if ← isLabel src then labeledRule src reach else expressionStatementRule src reach
  | .endOfText =>
      if src.options.recover then missingStatementRule src else expressionStatementRule src reach
  | _ => expressionStatementRule src reach

theorem RestoresAll.statementRule (h : RestoresAll src reach reach') :
    Restores σ (statementRule src reach) (Grammar.statementRule reach' (src.context σ)) := by
  refine .bind (.lift _) fun kind => ?_
  split
  · exact h.blockRule
  · exact .lift _
  · exact h.declarationRule true
  · exact h.ifRule
  · exact h.doWhileRule
  · exact h.whileRule
  · exact h.forRule
  · exact .lift _
  · exact .lift _
  · exact h.returnRule
  · exact h.withRule
  · exact h.switchRule
  · exact h.throwRule
  · exact h.tryRule
  · exact h.functionRule true
  · refine .bind (.lift _) fun label => ?_
    split
    · exact h.labeledRule
    · exact h.expressionStatementRule
  · show Restores σ _ (if src.options.recover then _ else _)
    split
    · exact .lift _
    · exact h.expressionStatementRule
  · first
    | exact h.expressionStatementRule
    | split <;> first | contradiction | exact h.expressionStatementRule

/-!
## The grammar as a whole
-/

/-- One rule of the grammar, with a strategy for the goals that it leads to. -/
def applyRule (src : Source) (reach : Strategy) : Strategy
  | .statements listEnd => statementsRule src reach listEnd
  | .statement => nested src (statementRule src reach)
  | .branch => branchRule src reach
  | .variables => variablesRule src reach
  | .cases => casesRule src reach
  | .parameters => parametersRule src reach
  | .expression => expressionRule src reach
  | .sequenceTail => sequenceTailRule src reach
  | .assignment => assignmentRule src reach
  | .binary floor => binaryRule reach floor
  | .binaryTail floor start left => binaryTailRule src reach floor start left
  | .unary => nested src (unaryRule src reach)
  | .member calls => memberRule src reach calls
  | .memberTail calls start front => memberTailRule src reach calls start front
  | .arguments => argumentsRule src reach
  | .elements => elementsRule src reach
  | .properties => propertiesRule src reach

theorem RestoresAll.applyRule (h : RestoresAll src reach reach') :
    RestoresAll src (applyRule src reach) (Grammar.applyRule reach') := by
  intro goal σ
  cases goal with
  | statements listEnd => exact h.statementsRule listEnd
  | statement => exact .nested h.statementRule
  | branch => exact h.branchRule
  | «variables» => exact h.variablesRule
  | cases => exact h.casesRule
  | parameters => exact h.parametersRule
  | expression => exact h.expressionRule
  | sequenceTail => exact h.sequenceTailRule
  | assignment => exact h.assignmentRule
  | binary floor => exact h.binaryRule floor
  | binaryTail floor start left => exact h.binaryTailRule floor start left
  | unary => exact .nested h.unaryRule
  | member calls => exact h.memberRule calls
  | memberTail calls start front => exact h.memberTailRule calls start front
  | arguments => exact h.argumentsRule
  | elements => exact h.elementsRule
  | properties => exact h.propertiesRule

def grammar (src : Source) : Nat → Strategy
  | 0, _ => fail src .exhausted
  | budget + 1, goal => applyRule src (grammar src budget) goal

/-- The grammar restores the settings on every path, from any settings and to any goal. -/
theorem restores_grammar (src : Source) (budget : Nat) :
    RestoresAll src (grammar src budget) (Grammar.grammar budget) := by
  induction budget with
  | zero => exact fun _ _ => .lift _
  | succ budget ih => exact ih.applyRule

end Stateful
end Grammar
end ScriptHints

import ScriptHints.Grammar.Expression
import ScriptHints.Grammar.Recovery

/-!
# Statements

The first token of a statement tells its form. Everything that is not one of the forms
below is an expression with a semicolon.
-/

namespace ScriptHints
namespace Grammar

open Syntax Token

variable [Machine]

/-!
## Lists of statements
-/

def statementsRule (reach : Strategy) (listEnd : ListEnd) (c : Context) :
    Reader (List NodeId) := do
  let kind ← peekKind c
  if kind = .endOfText || listEnd.covers kind then
    return []
  else
    let statement ← reach .branch c
    return statement :: (← reach (.statements listEnd) c)

def branchRule (reach : Strategy) (c : Context) : Reader NodeId :=
  recovering c (reach .statement c)

/-!
## Declarations and simple statements
-/

def variableRule (reach : Strategy) (c : Context) : Reader NodeId := do
  let start ← position
  let target ← newName c .variableName
  let initialized ← accept c (.punctuator .equal)
  let initializer ← if initialized then some <$> reach .assignment c else pure none
  addSince c start (.variable target initializer)

def variablesRule (reach : Strategy) (c : Context) : Reader (List NodeId) := do
  let declared ← variableRule reach c
  if ← accept c (.punctuator .comma) then
    return declared :: (← reach .variables c)
  else
    return [declared]

/-- A declaration; in the header of a loop it is not a statement and has no semicolon. -/
def declarationRule (reach : Strategy) (statement : Bool) (c : Context) : Reader NodeId := do
  let start ← position
  advance c
  let declared ← reach .variables c
  if statement then
    endStatement c .endOfDeclaration
  addSince c start (.variables declared statement)

def emptyRule (c : Context) : Reader NodeId := do
  let start ← position
  advance c
  addSince c start .empty

def expressionStatementRule (reach : Strategy) (c : Context) : Reader NodeId := do
  let start ← position
  let expression ← reach .expression c
  endStatement c .endOfExpression
  addSince c start (.expressionStatement expression)

/-- The end of the text where a statement has to stand. -/
def missingStatementRule (c : Context) : Reader NodeId := do
  let start ← position
  report c .error "expected a statement before end of input" (Span.ofToken (← peek c))
  addSince c start .empty

/-!
## Jumps
-/

/-- A label on the same line. -/
def jumpLabel (c : Context) : Reader (Option NodeId) := do
  let next ← peek c
  if next.kind = .identifier && !next.newlineBefore then
    return some (← newName c .label)
  else
    return none

def jumpRule (jump : Option NodeId → Node) (c : Context) : Reader NodeId := do
  let start ← position
  advance c
  let label ← jumpLabel c
  endStatement c .endOfJump
  addSince c start (jump label)

/-- Tells whether a `return` has no value behind it. -/
def returnsNothing (next : Token) : Bool :=
  next.kind = .punctuator .semicolon || next.kind = .punctuator .closeBrace ||
    next.kind = .endOfText || next.newlineBefore

def returnRule (reach : Strategy) (c : Context) : Reader NodeId := do
  let start ← position
  advance c
  let next ← peek c
  let value ← if returnsNothing next then pure none else some <$> reach .expression c
  endStatement c .endOfReturn
  addSince c start (.returnValue value)

def throwRule (reach : Strategy) (c : Context) : Reader NodeId := do
  let start ← position
  advance c
  let next ← peek c
  if next.newlineBefore || next.kind = .endOfText then
    fail c .thrownValue
  else
    let value ← reach .expression c
    endStatement c .endOfThrow
    addSince c start (.throwValue value)

/-!
## Conditions and loops
-/

/-- A condition in parentheses. -/
def conditionRule (reach : Strategy) (header : Header) (c : Context) : Reader NodeId := do
  expect c .openParen (.openHeader header)
  let condition ← reach .expression c.allowingIn
  expectClosing c .closeParen (.closeHeader header)
  return condition

def ifRule (reach : Strategy) (c : Context) : Reader NodeId := do
  let start ← position
  advance c
  let condition ← conditionRule reach .ifElse c
  let thenBranch ← reach .branch c
  let hasElse ← accept c (.keyword .elseWord)
  let elseBranch ← if hasElse then some <$> reach .branch c else pure none
  addSince c start (.ifElse condition thenBranch elseBranch)

def whileRule (reach : Strategy) (c : Context) : Reader NodeId := do
  let start ← position
  advance c
  let condition ← conditionRule reach .whileLoop c
  let body ← reach .branch c
  addSince c start (.whileLoop condition body)

def doWhileRule (reach : Strategy) (c : Context) : Reader NodeId := do
  let start ← position
  advance c
  let body ← reach .branch c
  unless ← accept c (.keyword .whileWord) do
    fail c .loopCondition
  let condition ← conditionRule reach .doWhileLoop c
  let _ ← accept c (.punctuator .semicolon)
  addSince c start (.doWhileLoop body condition)

def withRule (reach : Strategy) (c : Context) : Reader NodeId := do
  let start ← position
  advance c
  let subject ← conditionRule reach .withObject c
  let body ← reach .branch c
  addSince c start (.withObject subject body)

/-- The first clause of a `for` header, in which `in` is no operator. -/
def forInitializerRule (reach : Strategy) (c : Context) : Reader (Option NodeId) := do
  match ← peekKind c with
  | .punctuator .semicolon => return none
  | .keyword .varWord => some <$> declarationRule reach false c.forbiddingIn
  | _ => some <$> reach .expression c.forbiddingIn

/-- An expression that is missing when the token that ends it comes first. -/
def clauseRule (reach : Strategy) (stop : Punctuator) (c : Context) : Reader (Option NodeId) := do
  if (← peekKind c) = .punctuator stop then
    return none
  else
    some <$> reach .expression c.allowingIn

/-- The rest of a loop over the members of an object, from behind `in` on. -/
def forInTailRule (reach : Strategy) (start : Nat) (iterator : NodeId) (c : Context) :
    Reader NodeId := do
  let subject ← reach .expression c.allowingIn
  expectClosing c .closeParen .closeForIn
  let body ← reach .branch c
  addSince c start (.forInLoop iterator subject body)

/-- The rest of a loop with three clauses, from behind the first one on. -/
def forTailRule (reach : Strategy) (start : Nat) (initializer : Option NodeId) (c : Context) :
    Reader NodeId := do
  expect c .semicolon .endOfForInitializer
  let condition ← clauseRule reach .semicolon c
  expect c .semicolon .endOfForCondition
  let step ← clauseRule reach .closeParen c
  expectClosing c .closeParen .closeFor
  let body ← reach .branch c
  addSince c start (.forLoop initializer condition step body)

def forRule (reach : Strategy) (c : Context) : Reader NodeId := do
  let start ← position
  advance c
  expect c .openParen .openFor
  match ← forInitializerRule reach c with
  | none => forTailRule reach start none c
  | some initializer =>
      if ← accept c (.keyword .inWord) then
        forInTailRule reach start initializer c
      else
        forTailRule reach start (some initializer) c

/-!
## Switches
-/

/-- A case from behind its test on. -/
def caseTailRule (reach : Strategy) (start : Nat) (test : Option NodeId) (c : Context) :
    Reader (List NodeId) := do
  expect c .colon .endOfCaseLabel
  let body ← reach (.statements .closeBraceOrCase) c
  let case ← addSince c start (.switchCase test body)
  return case :: (← reach .cases c)

def casesRule (reach : Strategy) (c : Context) : Reader (List NodeId) := do
  let start ← position
  match ← peekKind c with
  | .punctuator .closeBrace =>
      advance c
      return []
  | .keyword .caseWord =>
      advance c
      let test ← reach .expression c.allowingIn
      caseTailRule reach start (some test) c
  | .keyword .defaultWord =>
      advance c
      caseTailRule reach start none c
  | kind =>
      if kind = .endOfText && c.options.recover then
        warnClosedByEnd c .closeSwitch
        return []
      else
        fail c (.expected .caseOrDefault)

def switchRule (reach : Strategy) (c : Context) : Reader NodeId := do
  let start ← position
  advance c
  let discriminant ← conditionRule reach .switchCases c
  expect c .openBrace .openSwitch
  let cases ← reach .cases c
  addSince c start (.switchCases discriminant cases)

/-!
## Exceptions
-/

def catchRule (reach : Strategy) (c : Context) : Reader NodeId := do
  let start ← position
  advance c
  expect c .openParen .openCatch
  let parameter ← newName c .catchParameter
  expectClosing c .closeParen .closeCatch
  let body ← blockRule reach c
  addSince c start (.catchClause parameter body)

def handlerRule (reach : Strategy) (c : Context) : Reader (Option NodeId) := do
  if (← peekKind c) = .keyword .catchWord then
    some <$> catchRule reach c
  else
    return none

def finalizerRule (reach : Strategy) (c : Context) : Reader (Option NodeId) := do
  if ← accept c (.keyword .finallyWord) then
    some <$> blockRule reach c
  else
    return none

/-- A block needs a handler or a finalizer behind it. -/
def tryRule (reach : Strategy) (c : Context) : Reader NodeId := do
  let start ← position
  advance c
  let body ← blockRule reach c
  let handler ← handlerRule reach c
  let finalizer ← finalizerRule reach c
  if handler.isNone && finalizer.isNone then
    fail c .handler
  else
    addSince c start (.tryCatch body handler finalizer)

/-!
## All forms
-/

def labeledRule (reach : Strategy) (c : Context) : Reader NodeId := do
  let start ← position
  let label ← newName c .label
  advance c
  let body ← reach .branch c
  addSince c start (.labeled label body)

/-- A word with a colon behind it is a label. -/
def isLabel (c : Context) : Reader Bool := do
  return (c.stream.get ((← position) + 1)).kind = .punctuator .colon

def statementRule (reach : Strategy) (c : Context) : Reader NodeId := do
  match ← peekKind c with
  | .punctuator .openBrace => blockRule reach c
  | .punctuator .semicolon => emptyRule c
  | .keyword .varWord => declarationRule reach true c
  | .keyword .ifWord => ifRule reach c
  | .keyword .doWord => doWhileRule reach c
  | .keyword .whileWord => whileRule reach c
  | .keyword .forWord => forRule reach c
  | .keyword .continueWord => jumpRule .continueOn c
  | .keyword .breakWord => jumpRule .breakOff c
  | .keyword .returnWord => returnRule reach c
  | .keyword .withWord => withRule reach c
  | .keyword .switchWord => switchRule reach c
  | .keyword .throwWord => throwRule reach c
  | .keyword .tryWord => tryRule reach c
  | .keyword .functionWord => functionRule reach true c
  | .identifier =>
      if ← isLabel c then labeledRule reach c else expressionStatementRule reach c
  | .endOfText =>
      if c.options.recover then missingStatementRule c else expressionStatementRule reach c
  | _ => expressionStatementRule reach c

end Grammar
end ScriptHints

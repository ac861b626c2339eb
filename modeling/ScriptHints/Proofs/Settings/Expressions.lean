import ScriptHints.Grammar.Expression
import ScriptHints.Proofs.Settings.Reader

/-!
# Expressions with the settings in the state

The rules for blocks, functions and expressions once more, for readers that keep the settings
in the state. Each rule keeps them, provided that the readers of the goals that it leads to do.
-/

namespace ScriptHints
namespace Grammar
namespace Stateful

open Syntax Token

abbrev Strategy :=
  (goal : Goal) → Reader goal.Result

/-- Every goal is reached like on a strategy of the grammar, and the settings are kept. -/
def RestoresAll (src : Source) (reach : Strategy) (reach' : Grammar.Strategy) : Prop :=
  forall goal σ, Restores σ (reach goal) (reach' goal (src.context σ))

variable {src : Source} {reach : Strategy} {reach' : Grammar.Strategy} {σ : Settings}

/-!
## Blocks and functions
-/

def blockRule (src : Source) (reach : Strategy) : Reader NodeId := do
  let start ← position
  expect src .openBrace .openBlock
  let statements ← reach (.statements .closeBrace)
  expectClosing src .closeBrace .closeBlock
  addSince src start (.block statements)

theorem RestoresAll.blockRule (h : RestoresAll src reach reach') :
    Restores σ (blockRule src reach) (Grammar.blockRule reach' (src.context σ)) := by
  refine .bind (.lift _) fun start => .bind (.lift _) fun _ => ?_
  exact .bind (h _ σ) fun statements => .bind (.lift _) fun _ => .lift _

def parametersRule (src : Source) (reach : Strategy) : Reader (List NodeId) := do
  let parameter ← newName src .parameterName
  if ← accept src (.punctuator .comma) then
    return parameter :: (← reach .parameters)
  else
    expectClosing src .closeParen .closeParameters
    return [parameter]

theorem RestoresAll.parametersRule (h : RestoresAll src reach reach') :
    Restores σ (parametersRule src reach) (Grammar.parametersRule reach' (src.context σ)) := by
  refine .bind (.lift _) fun parameter => .bind (.lift _) fun more => ?_
  split
  · exact .bind (h _ σ) fun parameters => .pure _
  · exact .bind (.lift _) fun _ => .pure _

def functionRule (src : Source) (reach : Strategy) (declaration : Bool) : Reader NodeId := do
  let start ← position
  advance src
  let name ← functionName src declaration
  expect src .openParen .openParameters
  let closed ← accept src (.punctuator .closeParen)
  let params ← if closed then pure [] else reach .parameters
  let body ← blockRule src reach
  addSince src start (.function name params body declaration)

theorem RestoresAll.functionRule (h : RestoresAll src reach reach') (declaration : Bool) :
    Restores σ (functionRule src reach declaration)
      (Grammar.functionRule reach' declaration (src.context σ)) := by
  refine .bind (.lift _) fun start => .bind (.lift _) fun _ => .bind (.lift _) fun name => ?_
  refine .bind (.lift _) fun _ => .bind (.lift _) fun closed => ?_
  split
  · exact .bind (.pure _) fun params => .bind h.blockRule fun body => .lift _
  · exact .bind (h _ σ) fun params => .bind h.blockRule fun body => .lift _

/-!
## Sequences, assignments and conditionals
-/

def expressionRule (src : Source) (reach : Strategy) : Reader NodeId := do
  let start ← position
  let first ← reach .assignment
  match ← reach .sequenceTail with
  | [] => return first
  | more => addSince src start (.sequence (first :: more))

theorem RestoresAll.expressionRule (h : RestoresAll src reach reach') :
    Restores σ (expressionRule src reach) (Grammar.expressionRule reach' (src.context σ)) := by
  refine .bind (.lift _) fun start => .bind (h _ σ) fun first => .bind (h _ σ) fun more => ?_
  cases more with
  | nil => exact .pure _
  | cons next more => exact .lift _

def sequenceTailRule (src : Source) (reach : Strategy) : Reader (List NodeId) := do
  if ← accept src (.punctuator .comma) then
    let next ← reach .assignment
    return next :: (← reach .sequenceTail)
  else
    return []

theorem RestoresAll.sequenceTailRule (h : RestoresAll src reach reach') :
    Restores σ (sequenceTailRule src reach) (Grammar.sequenceTailRule reach' (src.context σ)) := by
  refine .bind (.lift _) fun more => ?_
  split
  · exact .bind (h _ σ) fun next => .bind (h _ σ) fun rest => .pure _
  · exact .pure _

def conditionalRule (src : Source) (reach : Strategy) : Reader NodeId := do
  let start ← position
  let test ← reach (.binary 0)
  if ← accept src (.punctuator .question) then
    let consequent ← withIn true (reach .assignment)
    expect src .colon .conditionalColon
    let alternative ← reach .assignment
    addSince src start (.conditional test consequent alternative)
  else
    return test

theorem RestoresAll.conditionalRule (h : RestoresAll src reach reach') :
    Restores σ (conditionalRule src reach) (Grammar.conditionalRule reach' (src.context σ)) := by
  refine .bind (.lift _) fun start => .bind (h _ σ) fun test => .bind (.lift _) fun more => ?_
  split
  · refine .bind (.withIn (h _ _)) fun consequent => .bind (.lift _) fun _ => ?_
    exact .bind (h _ σ) fun alternative => .lift _
  · exact .pure _

def assignmentRule (src : Source) (reach : Strategy) : Reader NodeId := do
  let start ← position
  let target ← conditionalRule src reach
  match AssignmentOperator.ofKind? (← peekKind src) with
  | none => return target
  | some operator =>
      advance src
      let value ← reach .assignment
      addSince src start (.assignment operator target value)

theorem RestoresAll.assignmentRule (h : RestoresAll src reach reach') :
    Restores σ (assignmentRule src reach) (Grammar.assignmentRule reach' (src.context σ)) := by
  refine .bind (.lift _) fun start => .bind h.conditionalRule fun target => ?_
  refine .bind (.lift _) fun kind => ?_
  cases AssignmentOperator.ofKind? kind with
  | none => exact .pure _
  | some operator => exact .bind (.lift _) fun _ => .bind (h _ σ) fun value => .lift _

/-!
## Binary operators
-/

def binaryRule (reach : Strategy) (floor : Nat) : Reader NodeId := do
  let start ← position
  let left ← reach .unary
  reach (.binaryTail floor start left)

theorem RestoresAll.binaryRule (h : RestoresAll src reach reach') (floor : Nat) :
    Restores σ (binaryRule reach floor) (Grammar.binaryRule reach' floor (src.context σ)) := by
  exact .bind (.lift _) fun start => .bind (h _ σ) fun left => h _ σ

/-- The operator a token stands for, unless it is `in` where `in` is forbidden. -/
def operatorAt? (kind : TokenKind) : Reader (Option BinaryOperator) := do
  let allowed := (← get).allowIn
  return (BinaryOperator.ofKind? kind).filter fun operator => operator ≠ .isMember || allowed

theorem restores_operatorAt? (src : Source) (kind : TokenKind) :
    Restores σ (operatorAt? kind) (pure (Grammar.operatorAt? (src.context σ) kind)) :=
  fun _ => rfl

def binaryTailRule (src : Source) (reach : Strategy) (floor start : Nat) (left : NodeId) :
    Reader NodeId := do
  match ← operatorAt? (← peekKind src) with
  | none => return left
  | some operator =>
      if operator.precedence ≤ floor then
        return left
      else
        advance src
        let right ← reach (.binary operator.precedence)
        let joined ← addSince src start (.binary operator left right)
        reach (.binaryTail floor start joined)

theorem RestoresAll.binaryTailRule (h : RestoresAll src reach reach')
    (floor start : Nat) (left : NodeId) :
    Restores σ (binaryTailRule src reach floor start left)
      (Grammar.binaryTailRule reach' floor start left (src.context σ)) := by
  refine .bind (.lift _) fun kind => .bind_pure (restores_operatorAt? src kind) ?_
  cases Grammar.operatorAt? (src.context σ) kind with
  | none => exact .pure _
  | some operator =>
      dsimp only
      split
      · exact .pure _
      · refine .bind (.lift _) fun _ => .bind (h _ σ) fun right => ?_
        exact .bind (.lift _) fun joined => h _ σ

/-!
## Accesses, calls and constructions
-/

def argumentListRule (src : Source) (reach : Strategy) : Reader (List NodeId) := do
  expect src .openParen .openArguments
  if ← accept src (.punctuator .closeParen) then
    return []
  else
    reach .arguments

theorem RestoresAll.argumentListRule (h : RestoresAll src reach reach') :
    Restores σ (argumentListRule src reach) (Grammar.argumentListRule reach' (src.context σ)) := by
  refine .bind (.lift _) fun _ => .bind (.lift _) fun closed => ?_
  split
  · exact .pure _
  · exact h _ σ

def argumentsRule (src : Source) (reach : Strategy) : Reader (List NodeId) := do
  let argument ← withIn true (reach .assignment)
  if ← accept src (.punctuator .comma) then
    return argument :: (← reach .arguments)
  else
    expectClosing src .closeParen .closeArguments
    return [argument]

theorem RestoresAll.argumentsRule (h : RestoresAll src reach reach') :
    Restores σ (argumentsRule src reach) (Grammar.argumentsRule reach' (src.context σ)) := by
  refine .bind (.withIn (h _ _)) fun argument => .bind (.lift _) fun more => ?_
  split
  · exact .bind (h _ σ) fun rest => .pure _
  · exact .bind (.lift _) fun _ => .pure _

def constructionRule (src : Source) (reach : Strategy) : Reader NodeId := do
  let start ← position
  advance src
  let target ← nested src (reach (.member false))
  let arguments ←
    if (← peekKind src) = .punctuator .openParen then
      some <$> argumentListRule src reach
    else
      pure none
  addSince src start (.construction target arguments)

theorem RestoresAll.constructionRule (h : RestoresAll src reach reach') :
    Restores σ (constructionRule src reach) (Grammar.constructionRule reach' (src.context σ)) := by
  refine .bind (.lift _) fun start => .bind (.lift _) fun _ => ?_
  refine .bind (.nested (h _ _)) fun target => .bind (.lift _) fun kind => ?_
  split
  · exact .bind (.map some h.argumentListRule) fun arguments => .lift _
  · exact .bind (.pure _) fun arguments => .lift _

def memberTailRule (src : Source) (reach : Strategy) (calls : Bool) (start : Nat) (front : NodeId)
    : Reader NodeId := do
  match ← peekKind src with
  | .punctuator .dot =>
      advance src
      let name ← propertyName src
      let access ← addSince src start (.propertyAccess front name)
      reach (.memberTail calls start access)
  | .punctuator .openBracket =>
      advance src
      let element ← withIn true (reach .expression)
      expectClosing src .closeBracket .closeIndex
      let access ← addSince src start (.elementAccess front element)
      reach (.memberTail calls start access)
  | .punctuator .openParen =>
      if calls then
        let arguments ← argumentListRule src reach
        let call ← addSince src start (.call front arguments)
        reach (.memberTail calls start call)
      else
        return front
  | _ => return front

theorem RestoresAll.memberTailRule (h : RestoresAll src reach reach')
    (calls : Bool) (start : Nat) (front : NodeId) :
    Restores σ (memberTailRule src reach calls start front)
      (Grammar.memberTailRule reach' calls start front (src.context σ)) := by
  refine .bind (.lift _) fun kind => ?_
  split
  · refine .bind (.lift _) fun _ => .bind (.lift _) fun name => ?_
    exact .bind (.lift _) fun access => h _ σ
  · refine .bind (.lift _) fun _ => .bind (.withIn (h _ _)) fun element => ?_
    exact .bind (.lift _) fun _ => .bind (.lift _) fun access => h _ σ
  · show Restores σ (if calls then _ else _) (if calls then _ else _)
    split
    · exact .bind h.argumentListRule fun arguments => .bind (.lift _) fun call => h _ σ
    · exact .pure _
  -- Both rules come to their last case, where the second match may still have to be split.
  · first
    | exact .pure _
    | split <;> first | contradiction | exact .pure _

/-!
## Operands
-/

def parenthesizedRule (src : Source) (reach : Strategy) : Reader NodeId := do
  let start ← position
  advance src
  let expression ← withIn true (reach .expression)
  expectClosing src .closeParen .closeParentheses
  addSince src start (.parenthesized expression)

theorem RestoresAll.parenthesizedRule (h : RestoresAll src reach reach') :
    Restores σ (parenthesizedRule src reach)
    (Grammar.parenthesizedRule reach' (src.context σ)) := by
  refine .bind (.lift _) fun start => .bind (.lift _) fun _ => ?_
  exact .bind (.withIn (h _ _)) fun expression => .bind (.lift _) fun _ => .lift _

def arrayRule (src : Source) (reach : Strategy) : Reader NodeId := do
  let start ← position
  advance src
  let elements ← reach .elements
  addSince src start (.array elements)

theorem RestoresAll.arrayRule (h : RestoresAll src reach reach') :
    Restores σ (arrayRule src reach) (Grammar.arrayRule reach' (src.context σ)) := by
  refine .bind (.lift _) fun start => .bind (.lift _) fun _ => ?_
  exact .bind (h _ σ) fun elements => .lift _

def elementsRule (src : Source) (reach : Strategy) : Reader (List (Option NodeId)) := do
  if ← accept src (.punctuator .closeBracket) then
    return []
  else if ← accept src (.punctuator .comma) then
    return none :: (← reach .elements)
  else
    let element ← withIn true (reach .assignment)
    if ← accept src (.punctuator .comma) then
      return some element :: (← reach .elements)
    else
      expectClosing src .closeBracket .closeArray
      return [some element]

theorem RestoresAll.elementsRule (h : RestoresAll src reach reach') :
    Restores σ (elementsRule src reach) (Grammar.elementsRule reach' (src.context σ)) := by
  refine .bind (.lift _) fun closed => ?_
  split
  · exact .pure _
  · refine .bind (.lift _) fun hole => ?_
    split
    · exact .bind (h _ σ) fun rest => .pure _
    · refine .bind (.withIn (h _ _)) fun element => .bind (.lift _) fun more => ?_
      split
      · exact .bind (h _ σ) fun rest => .pure _
      · exact .bind (.lift _) fun _ => .pure _

def objectRule (src : Source) (reach : Strategy) : Reader NodeId := do
  let start ← position
  advance src
  let properties ← reach .properties
  addSince src start (.object properties)

theorem RestoresAll.objectRule (h : RestoresAll src reach reach') :
    Restores σ (objectRule src reach) (Grammar.objectRule reach' (src.context σ)) := by
  refine .bind (.lift _) fun start => .bind (.lift _) fun _ => ?_
  exact .bind (h _ σ) fun properties => .lift _

def propertyRule (src : Source) (reach : Strategy) : Reader NodeId := do
  let start ← position
  let key ← propertyKey src
  expect src .colon .propertyColon
  let value ← withIn true (reach .assignment)
  addSince src start (.property key value)

theorem RestoresAll.propertyRule (h : RestoresAll src reach reach') :
    Restores σ (propertyRule src reach) (Grammar.propertyRule reach' (src.context σ)) := by
  refine .bind (.lift _) fun start => .bind (.lift _) fun key => .bind (.lift _) fun _ => ?_
  exact .bind (.withIn (h _ _)) fun value => .lift _

def propertiesRule (src : Source) (reach : Strategy) : Reader (List NodeId) := do
  if ← accept src (.punctuator .closeBrace) then
    return []
  else
    let property ← propertyRule src reach
    if ← accept src (.punctuator .comma) then
      return property :: (← reach .properties)
    else
      expectClosing src .closeBrace .closeObject
      return [property]

theorem RestoresAll.propertiesRule (h : RestoresAll src reach reach') :
    Restores σ (propertiesRule src reach) (Grammar.propertiesRule reach' (src.context σ)) := by
  refine .bind (.lift _) fun closed => ?_
  split
  · exact .pure _
  · refine .bind h.propertyRule fun property => .bind (.lift _) fun more => ?_
    split
    · exact .bind (h _ σ) fun rest => .pure _
    · exact .bind (.lift _) fun _ => .pure _

def operandRule (src : Source) (reach : Strategy) : Reader NodeId := do
  let start ← position
  let next ← peek src
  match operand? next with
  | some node =>
      advance src
      addSince src start node
  | none =>
      match next.kind with
      | .keyword .functionWord => functionRule src reach false
      | .punctuator .openParen => parenthesizedRule src reach
      | .punctuator .openBracket => arrayRule src reach
      | .punctuator .openBrace => objectRule src reach
      | .endOfText => fail src .endOfText
      | _ => fail src .unexpectedToken

theorem RestoresAll.operandRule (h : RestoresAll src reach reach') :
    Restores σ (operandRule src reach) (Grammar.operandRule reach' (src.context σ)) := by
  refine .bind (.lift _) fun start => .bind (.lift _) fun next => ?_
  cases operand? next with
  | some node => exact .bind (.lift _) fun _ => .lift _
  | none =>
      dsimp only
      generalize next.kind = kind
      split
      · exact h.functionRule false
      · exact h.parenthesizedRule
      · exact h.arrayRule
      · exact h.objectRule
      · exact .lift _
      · first
        | exact .lift _
        | split <;> first | contradiction | exact .lift _

def memberRule (src : Source) (reach : Strategy) (calls : Bool) : Reader NodeId := do
  let start ← position
  let front ←
    if (← peekKind src) = .keyword .newWord then
      constructionRule src reach
    else
      operandRule src reach
  reach (.memberTail calls start front)

theorem RestoresAll.memberRule (h : RestoresAll src reach reach') (calls : Bool) :
    Restores σ (memberRule src reach calls) (Grammar.memberRule reach' calls (src.context σ)) := by
  refine .bind (.lift _) fun start => .bind (.lift _) fun kind => ?_
  split
  · exact .bind h.constructionRule fun front => h _ σ
  · exact .bind h.operandRule fun front => h _ σ

/-!
## Unary operators and updates
-/

def updateRule (src : Source) (reach : Strategy) : Reader NodeId := do
  let start ← position
  let operand ← reach (.member true)
  let next ← peek src
  match UpdateOperator.ofKind? next.kind with
  | some operator =>
      if next.newlineBefore then
        return operand
      else
        advance src
        addSince src start (.update operator .behind operand)
  | none => return operand

theorem RestoresAll.updateRule (h : RestoresAll src reach reach') :
    Restores σ (updateRule src reach) (Grammar.updateRule reach' (src.context σ)) := by
  refine .bind (.lift _) fun start => .bind (h _ σ) fun operand => .bind (.lift _) fun next => ?_
  cases UpdateOperator.ofKind? next.kind with
  | none => exact .pure _
  | some operator =>
      dsimp only
      split
      · exact .pure _
      · exact .bind (.lift _) fun _ => .lift _

def unaryRule (src : Source) (reach : Strategy) : Reader NodeId := do
  let start ← position
  let kind ← peekKind src
  match UnaryOperator.ofKind? kind with
  | some operator =>
      advance src
      let operand ← reach .unary
      addSince src start (.unary operator operand)
  | none =>
      match UpdateOperator.ofKind? kind with
      | some operator =>
          advance src
          let operand ← reach .unary
          addSince src start (.update operator .before operand)
      | none => updateRule src reach

theorem RestoresAll.unaryRule (h : RestoresAll src reach reach') :
    Restores σ (unaryRule src reach) (Grammar.unaryRule reach' (src.context σ)) := by
  refine .bind (.lift _) fun start => .bind (.lift _) fun kind => ?_
  cases UnaryOperator.ofKind? kind with
  | some operator => exact .bind (.lift _) fun _ => .bind (h _ σ) fun operand => .lift _
  | none =>
      cases UpdateOperator.ofKind? kind with
      | some operator => exact .bind (.lift _) fun _ => .bind (h _ σ) fun operand => .lift _
      | none => exact h.updateRule

end Stateful
end Grammar
end ScriptHints

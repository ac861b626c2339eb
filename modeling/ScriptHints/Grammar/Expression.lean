import ScriptHints.Grammar.Function

/-!
# Expressions

From the loosest to the tightest: sequences, assignments, conditionals, operators by
their precedence, unary operators, updates, accesses and calls, and the operands
themselves. Between brackets of any kind `in` is an operator, whatever stands around
them.
-/

namespace ScriptHints
namespace Grammar

open Syntax Token

variable [Machine]

/-!
## Sequences, assignments and conditionals
-/

def expressionRule (reach : Strategy) (c : Context) : Reader NodeId := do
  let start ← position
  let first ← reach .assignment c
  match ← reach .sequenceTail c with
  | [] => return first
  | more => addSince c start (.sequence (first :: more))

def sequenceTailRule (reach : Strategy) (c : Context) : Reader (List NodeId) := do
  if ← accept c (.punctuator .comma) then
    let next ← reach .assignment c
    return next :: (← reach .sequenceTail c)
  else
    return []

def conditionalRule (reach : Strategy) (c : Context) : Reader NodeId := do
  let start ← position
  let test ← reach (.binary 0) c
  if ← accept c (.punctuator .question) then
    let consequent ← reach .assignment c.allowingIn
    expect c .colon .conditionalColon
    let alternative ← reach .assignment c
    addSince c start (.conditional test consequent alternative)
  else
    return test

def assignmentRule (reach : Strategy) (c : Context) : Reader NodeId := do
  let start ← position
  let target ← conditionalRule reach c
  match AssignmentOperator.ofKind? (← peekKind c) with
  | none => return target
  | some operator =>
      advance c
      let value ← reach .assignment c
      addSince c start (.assignment operator target value)

/-!
## Binary operators
-/

/-- The operator a token stands for, unless it is `in` where `in` is forbidden. -/
def operatorAt? (c : Context) (kind : TokenKind) : Option BinaryOperator :=
  (BinaryOperator.ofKind? kind).filter fun operator => operator ≠ .isMember || c.allowIn

def binaryRule (reach : Strategy) (floor : Nat) (c : Context) : Reader NodeId := do
  let start ← position
  let left ← reach .unary c
  reach (.binaryTail floor start left) c

def binaryTailRule (reach : Strategy) (floor start : Nat) (left : NodeId) (c : Context) :
    Reader NodeId := do
  match operatorAt? c (← peekKind c) with
  | none => return left
  | some operator =>
      if operator.precedence ≤ floor then
        return left
      else
        advance c
        let right ← reach (.binary operator.precedence) c
        let joined ← addSince c start (.binary operator left right)
        reach (.binaryTail floor start joined) c

/-!
## Accesses, calls and constructions
-/

/-- A name behind a point or before a colon; reserved words are names there. -/
def propertyName (c : Context) : Reader NodeId := do
  let start ← position
  let next ← peek c
  match next.kind with
  | .identifier | .keyword _ | .boolean _ =>
      advance c
      addSince c start (.identifier next.lexeme)
  | _ => fail c .propertyName

def argumentListRule (reach : Strategy) (c : Context) : Reader (List NodeId) := do
  expect c .openParen .openArguments
  if ← accept c (.punctuator .closeParen) then
    return []
  else
    reach .arguments c

def argumentsRule (reach : Strategy) (c : Context) : Reader (List NodeId) := do
  let argument ← reach .assignment c.allowingIn
  if ← accept c (.punctuator .comma) then
    return argument :: (← reach .arguments c)
  else
    expectClosing c .closeParen .closeArguments
    return [argument]

/-- A construction takes the argument list behind its target, if there is one. -/
def constructionRule (reach : Strategy) (c : Context) : Reader NodeId := do
  let start ← position
  advance c
  let target ← nested c (reach (.member false))
  let arguments ←
    if (← peekKind c) = .punctuator .openParen then
      some <$> argumentListRule reach c
    else
      pure none
  addSince c start (.construction target arguments)

def memberTailRule (reach : Strategy) (calls : Bool) (start : Nat) (front : NodeId)
    (c : Context) : Reader NodeId := do
  match ← peekKind c with
  | .punctuator .dot =>
      advance c
      let name ← propertyName c
      let access ← addSince c start (.propertyAccess front name)
      reach (.memberTail calls start access) c
  | .punctuator .openBracket =>
      advance c
      let element ← reach .expression c.allowingIn
      expectClosing c .closeBracket .closeIndex
      let access ← addSince c start (.elementAccess front element)
      reach (.memberTail calls start access) c
  | .punctuator .openParen =>
      if calls then
        let arguments ← argumentListRule reach c
        let call ← addSince c start (.call front arguments)
        reach (.memberTail calls start call) c
      else
        return front
  | _ => return front

/-!
## Literals and other operands
-/

def quoteOf (lexeme : String) : Char :=
  lexeme.toList.headD '"'

/-- A literal that may stand as the key of a property. -/
def keyLiteral? (t : Token) : Option Node :=
  match t.kind with
  | .number value => some (.number value t.lexeme)
  | .string value => some (.string value (quoteOf t.lexeme))
  | _ => none

/-- An operand that is a single token. -/
def operand? (t : Token) : Option Node :=
  match t.kind with
  | .identifier => some (.identifier t.lexeme)
  | .boolean value => some (.boolean value)
  | .regExp pattern flags => some (.regExp pattern flags)
  | .keyword .nullWord => some .nullValue
  | .keyword .thisWord => some .thisValue
  | _ => keyLiteral? t

def parenthesizedRule (reach : Strategy) (c : Context) : Reader NodeId := do
  let start ← position
  advance c
  let expression ← reach .expression c.allowingIn
  expectClosing c .closeParen .closeParentheses
  addSince c start (.parenthesized expression)

def arrayRule (reach : Strategy) (c : Context) : Reader NodeId := do
  let start ← position
  advance c
  let elements ← reach .elements c
  addSince c start (.array elements)

def elementsRule (reach : Strategy) (c : Context) : Reader (List (Option NodeId)) := do
  if ← accept c (.punctuator .closeBracket) then
    return []
  else if ← accept c (.punctuator .comma) then
    return none :: (← reach .elements c)
  else
    let element ← reach .assignment c.allowingIn
    if ← accept c (.punctuator .comma) then
      return some element :: (← reach .elements c)
    else
      expectClosing c .closeBracket .closeArray
      return [some element]

def objectRule (reach : Strategy) (c : Context) : Reader NodeId := do
  let start ← position
  advance c
  let properties ← reach .properties c
  addSince c start (.object properties)

def propertyKey (c : Context) : Reader NodeId := do
  let start ← position
  match keyLiteral? (← peek c) with
  | some literal =>
      advance c
      addSince c start literal
  | none => propertyName c

def propertyRule (reach : Strategy) (c : Context) : Reader NodeId := do
  let start ← position
  let key ← propertyKey c
  expect c .colon .propertyColon
  let value ← reach .assignment c.allowingIn
  addSince c start (.property key value)

def propertiesRule (reach : Strategy) (c : Context) : Reader (List NodeId) := do
  if ← accept c (.punctuator .closeBrace) then
    return []
  else
    let property ← propertyRule reach c
    if ← accept c (.punctuator .comma) then
      return property :: (← reach .properties c)
    else
      expectClosing c .closeBrace .closeObject
      return [property]

def operandRule (reach : Strategy) (c : Context) : Reader NodeId := do
  let start ← position
  let next ← peek c
  match operand? next with
  | some node =>
      advance c
      addSince c start node
  | none =>
      match next.kind with
      | .keyword .functionWord => functionRule reach false c
      | .punctuator .openParen => parenthesizedRule reach c
      | .punctuator .openBracket => arrayRule reach c
      | .punctuator .openBrace => objectRule reach c
      | .endOfText => fail c .endOfText
      | _ => fail c .unexpectedToken

def memberRule (reach : Strategy) (calls : Bool) (c : Context) : Reader NodeId := do
  let start ← position
  let front ←
    if (← peekKind c) = .keyword .newWord then
      constructionRule reach c
    else
      operandRule reach c
  reach (.memberTail calls start front) c

/-!
## Unary operators and updates
-/

/-- An operand, with an update operator behind it if one stands on the same line. -/
def updateRule (reach : Strategy) (c : Context) : Reader NodeId := do
  let start ← position
  let operand ← reach (.member true) c
  let next ← peek c
  match UpdateOperator.ofKind? next.kind with
  | some operator =>
      if next.newlineBefore then
        return operand
      else
        advance c
        addSince c start (.update operator .behind operand)
  | none => return operand

def unaryRule (reach : Strategy) (c : Context) : Reader NodeId := do
  let start ← position
  let kind ← peekKind c
  match UnaryOperator.ofKind? kind with
  | some operator =>
      advance c
      let operand ← reach .unary c
      addSince c start (.unary operator operand)
  | none =>
      match UpdateOperator.ofKind? kind with
      | some operator =>
          advance c
          let operand ← reach .unary c
          addSince c start (.update operator .before operand)
      | none => updateRule reach c

end Grammar
end ScriptHints

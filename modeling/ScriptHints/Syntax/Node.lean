import ScriptHints.Syntax.Operator

/-!
# Nodes

A node is a piece of syntax whose parts are again nodes, named by their ids in a tree.
The children of a node are these parts in the order in which they stand in the text.
-/

namespace ScriptHints
namespace Syntax

open Number

structure NodeId where
  index : Nat
deriving DecidableEq, Repr

inductive Node where
  | script (statements : List NodeId)
  -- expressions
  | identifier (name : String)
  | number (value : Binary64) (raw : String)
  | string (value : String) (quote : Char)
  | boolean (value : Bool)
  | nullValue
  | thisValue
  | regExp (pattern flags : String)
  | object (properties : List NodeId)
  | property (key value : NodeId)
  /-- An element is missing where two commas have nothing between them. -/
  | array (elements : List (Option NodeId))
  | binary (operator : BinaryOperator) (left right : NodeId)
  | assignment (operator : AssignmentOperator) (target value : NodeId)
  | propertyAccess (target name : NodeId)
  | elementAccess (target element : NodeId)
  | call (target : NodeId) (arguments : List NodeId)
  /-- A construction without parentheses has no argument list. -/
  | construction (target : NodeId) (arguments : Option (List NodeId))
  | unary (operator : UnaryOperator) (operand : NodeId)
  | update (operator : UpdateOperator) (side : UpdateSide) (operand : NodeId)
  | conditional (test consequent alternative : NodeId)
  | parenthesized (expression : NodeId)
  | sequence (expressions : List NodeId)
  | function (name : Option NodeId) (params : List NodeId) (body : NodeId) (declaration : Bool)
  -- statements
  | expressionStatement (expression : NodeId)
  /-- The variables in the header of a loop are not a statement. -/
  | variables (declared : List NodeId) (statement : Bool)
  | variable (target : NodeId) (initializer : Option NodeId)
  | block (statements : List NodeId)
  | empty
  | ifElse (condition thenBranch : NodeId) (elseBranch : Option NodeId)
  | whileLoop (condition body : NodeId)
  | doWhileLoop (body condition : NodeId)
  | forLoop (initializer condition step : Option NodeId) (body : NodeId)
  | forInLoop (iterator subject body : NodeId)
  | switchCases (discriminant : NodeId) (cases : List NodeId)
  /-- The default case has no test. -/
  | switchCase (test : Option NodeId) (body : List NodeId)
  | breakOff (label : Option NodeId)
  | continueOn (label : Option NodeId)
  | returnValue (value : Option NodeId)
  | throwValue (value : NodeId)
  | tryCatch (body : NodeId) (handler finalizer : Option NodeId)
  | catchClause (parameter body : NodeId)
  | labeled (label body : NodeId)
  | withObject (subject body : NodeId)
  /-- The text of a statement that could not be read. -/
  | skipped (text : String)
deriving DecidableEq, Repr

namespace Node

/-- The parts of a node in the order of the text. -/
def children : Node → List NodeId
  | .script statements => statements
  | .identifier _ | .number _ _ | .string _ _ | .boolean _ | .nullValue | .thisValue
  | .regExp _ _ | .empty | .skipped _ => []
  | .object properties => properties
  | .property key value => [key, value]
  | .array elements => elements.filterMap id
  | .binary _ left right => [left, right]
  | .assignment _ target value => [target, value]
  | .propertyAccess target name => [target, name]
  | .elementAccess target element => [target, element]
  | .call target arguments => target :: arguments
  | .construction target arguments => target :: arguments.getD []
  | .unary _ operand => [operand]
  | .update _ _ operand => [operand]
  | .conditional test consequent alternative => [test, consequent, alternative]
  | .parenthesized expression => [expression]
  | .sequence expressions => expressions
  | .function name params body _ => name.toList ++ params ++ [body]
  | .expressionStatement expression => [expression]
  | .variables list _ => list
  | .variable target initializer => target :: initializer.toList
  | .block statements => statements
  | .ifElse condition thenBranch elseBranch => condition :: thenBranch :: elseBranch.toList
  | .whileLoop condition body => [condition, body]
  | .doWhileLoop body condition => [body, condition]
  | .forLoop initializer condition step body =>
      initializer.toList ++ condition.toList ++ step.toList ++ [body]
  | .forInLoop iterator subject body => [iterator, subject, body]
  | .switchCases discriminant cases => discriminant :: cases
  | .switchCase test body => test.toList ++ body
  | .breakOff label => label.toList
  | .continueOn label => label.toList
  | .returnValue value => value.toList
  | .throwValue value => [value]
  | .tryCatch body handler finalizer => body :: (handler.toList ++ finalizer.toList)
  | .catchClause parameter body => [parameter, body]
  | .labeled label body => [label, body]
  | .withObject subject body => [subject, body]

/-- The name of the category a node belongs to. -/
def category : Node → String
  | .script _ => "Script"
  | .identifier _ => "Identifier"
  | .number _ _ => "NumberLiteral"
  | .string _ _ => "StringLiteral"
  | .boolean _ => "BooleanLiteral"
  | .nullValue => "NullLiteral"
  | .thisValue => "This"
  | .regExp _ _ => "RegExpLiteral"
  | .object _ => "ObjectLiteral"
  | .property _ _ => "ObjectProperty"
  | .array _ => "ArrayLiteral"
  | .binary _ _ _ => "Infix"
  | .assignment _ _ _ => "Assignment"
  | .propertyAccess _ _ => "PropertyAccess"
  | .elementAccess _ _ => "ElementAccess"
  | .call _ _ => "Call"
  | .construction _ _ => "New"
  | .unary _ _ => "Unary"
  | .update _ _ _ => "Update"
  | .conditional _ _ _ => "Conditional"
  | .parenthesized _ => "Parenthesized"
  | .sequence _ => "Sequence"
  | .function _ _ _ _ => "Function"
  | .expressionStatement _ => "ExpressionStatement"
  | .variables _ _ => "VariableDeclaration"
  | .variable _ _ => "VariableInitializer"
  | .block _ => "Block"
  | .empty => "Empty"
  | .ifElse _ _ _ => "If"
  | .whileLoop _ _ => "While"
  | .doWhileLoop _ _ => "DoWhile"
  | .forLoop _ _ _ _ => "For"
  | .forInLoop _ _ _ => "ForIn"
  | .switchCases _ _ => "Switch"
  | .switchCase _ _ => "SwitchCase"
  | .breakOff _ => "Break"
  | .continueOn _ => "Continue"
  | .returnValue _ => "Return"
  | .throwValue _ => "Throw"
  | .tryCatch _ _ _ => "Try"
  | .catchClause _ _ => "CatchClause"
  | .labeled _ _ => "Labeled"
  | .withObject _ _ => "With"
  | .skipped _ => "Error"

/-- Two or more parts joined by a separator: operators, commas, points and colons. -/
def isJoined : Node → Bool
  | .binary _ _ _ | .sequence _ | .assignment _ _ _ | .propertyAccess _ _
  | .property _ _ => true
  | _ => false

def identifierName? : Node → Option String
  | .identifier name => some name
  | _ => none

end Node
end Syntax
end ScriptHints

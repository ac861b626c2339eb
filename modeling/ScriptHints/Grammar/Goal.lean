import ScriptHints.Grammar.Reader

/-!
# Goals of the grammar

A goal is what a reader looks for: a statement, an expression, the rest of a list. The
rules of the grammar are written against any way of reaching the goals they lead to, and
the grammar as a whole ties them together.
-/

namespace ScriptHints
namespace Grammar

open Syntax Token

/-- What ends a list of statements besides the end of the text. -/
inductive ListEnd where
  | none | closeBrace | closeBraceOrCase
deriving DecidableEq, Repr

def ListEnd.covers : ListEnd → TokenKind → Bool
  | .none, _ => false
  | .closeBrace, kind => kind = .punctuator .closeBrace
  | .closeBraceOrCase, kind =>
      kind = .punctuator .closeBrace || kind = .keyword .caseWord || kind = .keyword .defaultWord

inductive Goal where
  /-- The statements up to the end of their list. -/
  | statements (listEnd : ListEnd)
  | statement
  /-- A statement that may be skipped. -/
  | branch
  /-- The variables of a declaration, at least one. -/
  | variables
  /-- The cases up to the end of a switch. -/
  | cases
  /-- The parameters of a function, at least one, with the closing parenthesis. -/
  | parameters
  | expression
  /-- The further members of a sequence. -/
  | sequenceTail
  | assignment
  /-- Operands joined by operators of a precedence above the floor. -/
  | binary (floor : Nat)
  /-- What follows the left operand of such an expression. -/
  | binaryTail (floor start : Nat) (left : NodeId)
  | unary
  /-- Accesses and calls; without calls in the target of a construction. -/
  | member (calls : Bool)
  /-- What follows the front of such an expression. -/
  | memberTail (calls : Bool) (start : Nat) (front : NodeId)
  /-- The arguments of a call, at least one, with the closing parenthesis. -/
  | arguments
  /-- The elements of an array with the closing bracket. -/
  | elements
  /-- The properties of an object with the closing brace. -/
  | properties
deriving DecidableEq, Repr

/-- What a reader has when it reaches a goal. -/
@[reducible] def Goal.Result : Goal → Type
  | .statements _ => List NodeId
  | .variables => List NodeId
  | .cases => List NodeId
  | .parameters => List NodeId
  | .sequenceTail => List NodeId
  | .arguments => List NodeId
  | .properties => List NodeId
  | .elements => List (Option NodeId)
  | .statement => NodeId
  | .branch => NodeId
  | .expression => NodeId
  | .assignment => NodeId
  | .binary _ => NodeId
  | .binaryTail _ _ _ => NodeId
  | .unary => NodeId
  | .member _ => NodeId
  | .memberTail _ _ _ => NodeId

/-- A way of reaching every goal. -/
abbrev Strategy :=
  (goal : Goal) → Context → Reader goal.Result

end Grammar
end ScriptHints

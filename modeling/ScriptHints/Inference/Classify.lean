import ScriptHints.Inference.OperandFold

/-!
# The type of a node

What can be told about the value of a node without running anything. Literals have the
canonical types, a construction has the type it names, joined operands have the type of
their fold, and what a catch clause catches is an error. A plain name is left to a
resolver, which knows what is in scope.
-/

namespace ScriptHints
namespace Inference

open Syntax TypeInfo

/-- The type of the value that a name stands for. -/
abbrev Resolver :=
  String → Option TypeDeclaration

structure Setting where
  registry : Registry
  resolve : Resolver

/-- Names stand for the types that are registered under them. -/
def Setting.ofRegistry (r : Registry) : Setting :=
  { registry := r, resolve := r.lookup }

/-- The name that a construction constructs, if its target is a plain name. -/
def constructedName (t : SyntaxTree) (id : NodeId) : Except TreeFault (Option String) := do
  match ← t.node id with
  | .construction target _ => t.identifierName target
  | _ => return none

def isCatchParameter (t : SyntaxTree) (id : NodeId) : Except TreeFault Bool := do
  match ← t.parent id with
  | none => return false
  | some parent =>
      match ← t.node parent with
      | .catchClause parameter _ => return parameter = id
      | _ => return false

/-- The type that the form of a node tells. -/
def typeOfForm (s : Setting) (t : SyntaxTree) (id : NodeId) (node : Node) :
    Except TreeFault (Option TypeDeclaration) := do
  let canonical := s.registry.lookupCanonical
  match node with
  | .identifier name => return s.resolve name
  | .construction _ _ => return (← constructedName t id).bind s.registry.lookup
  | .number _ _ => return canonical .number
  | .object _ => return canonical .object
  | .string _ _ => return canonical .string
  | .boolean _ => return canonical .boolean
  | .array _ => return canonical .array
  | .binary _ _ _ | .sequence _ => operandDeclaration s.registry t id
  | _ => return none

/-- The type of a node; a node that is not in the tree has none. -/
def classify (s : Setting) (t : SyntaxTree) (id : NodeId) :
    Except TreeFault (Option TypeDeclaration) := do
  match t.get? id with
  | none => return none
  | some entry =>
      match entry.node with
      | .catchClause _ _ => return s.registry.lookupCanonical .error
      | node =>
          if ← isCatchParameter t id then
            return s.registry.lookupCanonical .error
          else
            typeOfForm s t id node

end Inference
end ScriptHints

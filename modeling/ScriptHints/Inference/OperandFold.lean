import ScriptHints.Syntax.Walk
import ScriptHints.TypeInfo.Registry

/-!
# Types of joined operands

The type of operands that are joined by operators is told by going through them one after
the other. Joins add nothing. A text makes the whole a text, for good. A number counts
only while nothing else was seen. Everything else makes the type impossible to tell,
unless it is a text already.
-/

namespace ScriptHints
namespace Inference

open Syntax TypeInfo

/-- The type after one more node. -/
def foldOperand (known : Option CanonicalType) (node : Node) : Option CanonicalType :=
  if node.isJoined then known
  else
    match node, known with
    | .string _ _, _ => some .string
    | .number _ _, none => some .number
    | .number _ _, some type => some type
    | _, some .string => some .string
    | _, _ => some .any

/-- The type of a node and all nodes below it, taken in the order of the text. -/
def operandType (t : SyntaxTree) (id : NodeId) : Except TreeFault (Option CanonicalType) := do
  let nodes ← (← t.descendants id).mapM t.node
  return nodes.foldl foldOperand none

/-- The declaration of that type. -/
def operandDeclaration (r : Registry) (t : SyntaxTree) (id : NodeId) :
    Except TreeFault (Option TypeDeclaration) :=
  (operandType t id).map (·.bind r.lookupCanonical)

end Inference
end ScriptHints

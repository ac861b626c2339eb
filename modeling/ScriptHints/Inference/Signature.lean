import ScriptHints.Syntax.Walk

/-!
# Signature keys

The key of the call around a node: the name of the called member and a placeholder for
each argument. The types of the arguments do not matter, and a call of something that is
no member has no name. A construction counts as a call.
-/

namespace ScriptHints
namespace Inference

open Syntax

/-- What is called, and with how many arguments. -/
def callShape? : Node → Option (NodeId × Nat)
  | .call target arguments => some (target, arguments.length)
  | .construction target arguments => some (target, (arguments.map List.length).getD 0)
  | _ => none

/-- The first call among nodes, looking no further than the script. -/
def firstCall? : List Node → Option (NodeId × Nat)
  | [] => none
  | .script _ :: _ => none
  | node :: nodes => (callShape? node).or (firstCall? nodes)

def signatureKey (name : String) (arity : Nat) : String :=
  name ++ "(" ++ ",".intercalate (List.replicate arity "p") ++ ")"

/-- The name of the member that is accessed. -/
def memberName (t : SyntaxTree) (target : NodeId) : Except TreeFault String := do
  match ← t.node target with
  | .propertyAccess _ name => return (← t.identifierName name).getD ""
  | _ => return ""

/-- The key of the innermost call that holds a node, the node itself included. -/
def enclosingSignature (t : SyntaxTree) (id : NodeId) : Except TreeFault (Option String) := do
  let nodes ← (← t.ancestors id).mapM t.node
  match firstCall? nodes with
  | none => return none
  | some (target, arity) => return some (signatureKey (← memberName t target) arity)

end Inference
end ScriptHints

import ScriptHints.Syntax.Source

/-!
# Self-reference

To find the type of a variable one looks at its initializer, which must not lead back to
the variable. The guard compares texts: the part of the initializer before its first point
must not be the variable.
-/

namespace ScriptHints
namespace Inference

open Syntax

/-- The text before the first point; a text of nothing but points has none. -/
def firstSegment? (text : String) : Option String :=
  let chars := text.toList
  if !chars.isEmpty && chars.all (· = '.') then none
  else some (String.ofList (chars.takeWhile (· ≠ '.')))

def mayResolve (target initializer : String) : Bool :=
  match firstSegment? initializer with
  | some segment => segment ≠ target
  | none => false

/-- Whether the type of a variable may be looked for in its initializer. -/
def canResolveVariable (t : SyntaxTree) (target initializer : NodeId) :
    Except TreeFault Bool := do
  return mayResolve (← t.toSource target) (← t.toSource initializer)

end Inference
end ScriptHints

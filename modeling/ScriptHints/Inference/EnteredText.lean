import ScriptHints.Grammar.Parse
import ScriptHints.Inference.Classify
import ScriptHints.Syntax.Source

/-!
# Text that is being entered

Whatever a user has typed so far is read leniently, and only its first statement matters.
Of most statements with a header the expression in the header is the part that a hint is
wanted for. A text that has no such part, or cannot be read at all, is as good as empty.
-/

namespace ScriptHints
namespace Inference

open Grammar Syntax TypeInfo

/-- The part of a statement that a hint is wanted for. -/
def relevantPart (statement : NodeId) : Node → Option NodeId
  | .expressionStatement expression => some expression
  | .switchCases discriminant _ => some discriminant
  | .ifElse condition _ _ => some condition
  | .whileLoop condition _ => some condition
  | .forLoop initializer _ _ _ => initializer
  | .forInLoop _ _ _ => none
  | .skipped _ => none
  | _ => some statement

/-- The source of that part of the first statement. -/
def relevantSource (t : SyntaxTree) : Except TreeFault String := do
  match ← t.statements with
  | [] => return ""
  | statement :: _ =>
      match relevantPart statement (← t.node statement) with
      | none => return ""
      | some part => t.toSource part

/-- The source of the expression that an entered text is about, or nothing. -/
def enteredExpression (text : String) : Except TreeFault String :=
  match parseScript text Options.lenient with
  | .error _ => .ok ""
  | .ok (t, _) => relevantSource t

/-- The type of the expression that an entered text is about. -/
def enteredType (s : Setting) (text : String) : Except TreeFault (Option TypeDeclaration) := do
  let expression ← enteredExpression text
  if expression.isEmpty then
    return none
  else
    match parseExpression expression Options.lenient with
    | .error _ => return none
    | .ok t =>
        match t.root with
        | none => return none
        | some root => classify s t root

end Inference
end ScriptHints

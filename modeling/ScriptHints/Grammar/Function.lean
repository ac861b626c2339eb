import ScriptHints.Grammar.Goal

/-!
# Blocks and functions

A function is an expression whose body is a block of statements; it is where the two
halves of the grammar meet. As a statement it needs a name.
-/

namespace ScriptHints
namespace Grammar

open Syntax Token

variable [Machine]

def blockRule (reach : Strategy) (c : Context) : Reader NodeId := do
  let start ← position
  expect c .openBrace .openBlock
  let statements ← reach (.statements .closeBrace) c
  expectClosing c .closeBrace .closeBlock
  addSince c start (.block statements)

/-- The name of a function; only a declaration has to have one. -/
def functionName (c : Context) (declaration : Bool) : Reader (Option NodeId) := do
  if (← peekKind c) = .identifier then
    return some (← newName c .functionName)
  else if declaration then
    fail c .functionName
  else
    return none

def parametersRule (reach : Strategy) (c : Context) : Reader (List NodeId) := do
  let parameter ← newName c .parameterName
  if ← accept c (.punctuator .comma) then
    return parameter :: (← reach .parameters c)
  else
    expectClosing c .closeParen .closeParameters
    return [parameter]

def functionRule (reach : Strategy) (declaration : Bool) (c : Context) : Reader NodeId := do
  let start ← position
  advance c
  let name ← functionName c declaration
  expect c .openParen .openParameters
  let closed ← accept c (.punctuator .closeParen)
  let params ← if closed then pure [] else reach .parameters c
  let body ← blockRule reach c
  addSince c start (.function name params body declaration)

end Grammar
end ScriptHints

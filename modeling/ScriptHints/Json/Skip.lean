import ScriptHints.Json.Numbers
import ScriptHints.Json.Strings

/-!
# Values that are passed over

A value that nobody asks for is read for its form alone. Every part of a value takes at
least one byte, which bounds the number of parts.
-/

namespace ScriptHints
namespace Json

inductive SkipGoal where
  | value
  /-- The rest of an array; only the first element has no comma before it. -/
  | elements (first : Bool)
  /-- The rest of an object. -/
  | members (first : Bool)
deriving DecidableEq, Repr

def skipScalar (c : Char) : JsonReader Unit :=
  match c with
  | 'n' => word ['n', 'u', 'l', 'l']
  | 't' => word ['t', 'r', 'u', 'e']
  | 'f' => word ['f', 'a', 'l', 's', 'e']
  | '"' => do
      drop
      skipStringTail
  | '-' => do
      drop
      skipMagnitude
  | _ => if c.isDigit then skipMagnitude else throw .malformed

def skipWithin : Nat → SkipGoal → JsonReader Unit
  | 0, _ => throw .malformed
  | parts + 1, .value => do
      let c ← peek
      if c = '[' then
        drop
        skipWithin parts (.elements true)
      else if c = '{' then
        drop
        skipWithin parts (.members true)
      else
        skipScalar c
  | parts + 1, .elements first => do
      if (← peek) = ']' then
        drop
      else
        unless first do
          require ','
        skipWithin parts .value
        skipWithin parts (.elements false)
  | parts + 1, .members first => do
      if (← peek) = '}' then
        drop
      else
        unless first do
          require ','
        require '"'
        skipStringTail
        require ':'
        skipWithin parts .value
        skipWithin parts (.members false)

def skipValue : JsonReader Unit := do
  skipWithin (2 * (← get).length + 2) .value

end Json
end ScriptHints

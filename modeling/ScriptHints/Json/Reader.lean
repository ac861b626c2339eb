import ScriptHints.Text.CodePoint

/-!
# Reading JSON from bytes

A reader of JSON takes bytes one after the other and stops at the first fault. The faults
are of three sorts: the text ends too early, the text is no JSON, or it is JSON but not of
the shape that is wanted.
-/

namespace ScriptHints
namespace Json

inductive JsonFault where
  | endOfText
  | malformed
  | wrongShape
deriving DecidableEq, Repr

abbrev JsonReader :=
  StateT (List UInt8) (Except JsonFault)

def isBlank (b : UInt8) : Bool :=
  let c := Char.ofUInt8 b
  c = ' ' || c = '\t' || c = '\n' || c = '\r'

/-- The next byte behind blanks, as the character of its number. -/
def peek : JsonReader Char := do
  modify fun bytes => bytes.dropWhile isBlank
  match ← get with
  | [] => throw .endOfText
  | b :: _ => return Char.ofUInt8 b

def drop : JsonReader Unit :=
  modify List.tail

/-- Bytes that have to be there, without blanks. -/
def word : List Char → JsonReader Unit
  | [] => return
  | c :: chars => do
      match ← get with
      | [] => throw .endOfText
      | b :: bytes =>
          if Char.ofUInt8 b = c then
            set bytes
            word chars
          else
            throw .malformed

/-- A mark behind blanks. -/
def require (c : Char) : JsonReader Unit := do
  if (← peek) = c then drop else throw .malformed

/-- Nothing but blanks. -/
def atEnd : JsonReader Unit := do
  if (← get).all isBlank then return else throw .malformed

end Json
end ScriptHints

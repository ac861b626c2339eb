import ScriptHints.Json.Reader
import ScriptHints.Number.Decimal

/-!
# Strings of JSON

The inside of a string is read by an automaton, byte by byte. A string that is wanted must
be made of characters: its bytes are UTF-8, and surrogates come in pairs. In a string that
is passed over, only the form of the escapes counts.
-/

namespace ScriptHints
namespace Json

open Number Text

inductive StringState where
  | plain
  | escaped
  /-- Behind the mark of a numeric escape, perhaps with a lead surrogate before it. -/
  | digits (lead : Option Nat) (read : List Char)
  /-- Behind a lead surrogate. -/
  | surrogateEscape (lead : Nat)
  | surrogateMark (lead : Nat)
deriving DecidableEq, Repr

def simpleEscape? : Char → Option Char
  | '"' => some '"'
  | '\\' => some '\\'
  | '/' => some '/'
  | 'b' => some '\x08'
  | 'f' => some '\x0c'
  | 'n' => some '\n'
  | 'r' => some '\r'
  | 't' => some '\t'
  | _ => none

def encoded (code : Nat) : List UInt8 :=
  (charOfCode? code).elim [] String.utf8EncodeChar

/-- What a complete numeric escape leads to. -/
def numericEscape (wanted : Bool) (lead : Option Nat) (code : Nat) :
    Except JsonFault (StringState × List UInt8) :=
  if !wanted then .ok (.plain, [])
  else
    match lead with
    | some lead =>
        if isTrailSurrogate code then .ok (.plain, encoded (ofSurrogates lead code))
        else .error .malformed
    | none =>
        if isTrailSurrogate code then .error .malformed
        else if isLeadSurrogate code then .ok (.surrogateEscape code, [])
        else .ok (.plain, encoded code)

/-- The state behind a byte and the bytes that it adds to the string. -/
def StringState.step (wanted : Bool) (state : StringState) (b : UInt8) :
    Except JsonFault (StringState × List UInt8) :=
  let c := Char.ofUInt8 b
  match state with
  | .plain =>
      if c = '\\' then .ok (.escaped, [])
      else if c < ' ' then .error .malformed
      else .ok (.plain, [b])
  | .escaped =>
      match simpleEscape? c with
      | some meant => .ok (.plain, String.utf8EncodeChar meant)
      | none => if c = 'u' then .ok (.digits none [], []) else .error .malformed
  | .digits lead read =>
      let read := read ++ [c]
      if read.length < 4 then .ok (.digits lead read, [])
      else if read.all isHexDigit then numericEscape wanted lead (ofDigits 16 read)
      else .error .malformed
  | .surrogateEscape lead =>
      if c = '\\' then .ok (.surrogateMark lead, []) else .error .malformed
  | .surrogateMark lead =>
      if c = 'u' then .ok (.digits (some lead) [], []) else .error .malformed

/-- The bytes of a string up to its closing quote, and what follows the quote. -/
def stringBytes (wanted : Bool) (state : StringState) :
    List UInt8 → Except JsonFault (List UInt8 × List UInt8)
  | [] => .error .endOfText
  | b :: bytes =>
      if state = .plain && Char.ofUInt8 b = '"' then .ok ([], bytes)
      else
        match state.step wanted b with
        | .error fault => .error fault
        | .ok (state, added) =>
            (stringBytes wanted state bytes).map fun (more, rest) => (added ++ more, rest)

/-- A string from behind its opening quote on. -/
def stringTail : JsonReader String := do
  let (content, rest) ← stringBytes true .plain (← get)
  set rest
  match String.fromUTF8? ⟨content.toArray⟩ with
  | some text => return text
  | none => throw .malformed

def skipStringTail : JsonReader Unit := do
  let (_, rest) ← stringBytes false .plain (← get)
  set rest

end Json
end ScriptHints

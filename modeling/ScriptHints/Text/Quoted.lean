import ScriptHints.Text.Visible

/-!
# Quoted text

Two ways of writing a text between quotes. The contents of a string literal are
escaped for one of the two quote characters, so that the literal reads back as the
text. A text shown to a reader is always in double quotes, and everything that would
not be seen is spelled out.
-/

namespace ScriptHints
namespace Text

/-!
## Contents of string literals
-/

/-- What stands for a character inside a literal with the given quote. -/
def escapeChar (quote c : Char) : List Char :=
  if c = '\\' then ['\\', '\\']
  else if c = '\n' then ['\\', 'n']
  else if c = '\r' then ['\\', 'r']
  else if c = '\t' then ['\\', 't']
  else if c = quote then ['\\', c]
  else [c]

def escapeContents (quote : Char) (text : String) : String :=
  String.ofList (text.toList.flatMap (escapeChar quote))

@[simp] theorem escapeContents_toList (quote : Char) (text : String) :
    (escapeContents quote text).toList = text.toList.flatMap (escapeChar quote) := by
  simp [escapeContents]

/-!
## Text shown to a reader
-/

def hexadecimal (n : Nat) : List Char :=
  Nat.toDigits 16 n

def showChar (c : Char) : List Char :=
  if c = '"' then ['\\', '"']
  else if c = '\\' then ['\\', '\\']
  else if c = '\x00' then ['\\', '0']
  else if c = '\t' then ['\\', 't']
  else if c = '\r' then ['\\', 'r']
  else if c = '\n' then ['\\', 'n']
  else if isVisible c then [c]
  else ['\\', 'u', '{'] ++ hexadecimal c.toNat ++ ['}']

def shown (text : String) : String :=
  String.ofList ('"' :: text.toList.flatMap showChar ++ ['"'])

end Text
end ScriptHints

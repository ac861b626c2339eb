import ScriptHints.Text.Place

/-!
# Lexical errors

What can be wrong with a text before it has tokens, and where: the place is always that
of the first character of the offending piece.
-/

namespace ScriptHints
namespace Token

open Text

inductive LexicalFault where
  | unexpectedCharacter (c : Char)
  | unterminatedString
  | unterminatedComment
  | unterminatedRegExp
  | invalidNumber (lexeme : String)
deriving DecidableEq, Repr

structure LexicalError where
  fault : LexicalFault
  place : Place
deriving DecidableEq, Repr

def LexicalFault.subject : LexicalFault → String
  | .unexpectedCharacter c => s!"unexpected character '{c}' at"
  | .unterminatedString => "unterminated string literal starting at"
  | .unterminatedComment => "unterminated comment starting at"
  | .unterminatedRegExp => "unterminated regular expression starting at"
  | .invalidNumber lexeme => s!"invalid numeric literal '{lexeme}' at"

def LexicalError.message (e : LexicalError) : String :=
  s!"{e.fault.subject} line {e.place.line}, column {e.place.column}"

end Token
end ScriptHints

import ScriptHints.Text.Place
import ScriptHints.Text.Quoted
import ScriptHints.Number.Shown
import ScriptHints.Token.Keyword
import ScriptHints.Token.Punctuator

/-!
# Tokens

A token has a kind, the text it was read from, the place of its first character and a
mark that tells whether a line ended between it and the token before. The value of a
literal is part of its kind. A token stream always ends with the token that stands for
the end of the text, so there is a token at every position.
-/

namespace ScriptHints

open Number Text

namespace Token

inductive TokenKind where
  | identifier
  | number (value : Binary64)
  | string (value : String)
  | boolean (value : Bool)
  | regExp (pattern flags : String)
  | keyword (word : Keyword)
  | punctuator (mark : Punctuator)
  | endOfText
deriving DecidableEq, Repr

end Token

structure Token where
  kind : Token.TokenKind
  lexeme : String
  place : Place
  newlineBefore : Bool
deriving DecidableEq, Repr

namespace Token

/-- The offset behind the last character of a token. -/
def stopOffset (t : Token) : Nat :=
  t.place.offset + t.lexeme.utf8ByteSize

/-- The text from the first character of a token to the last one of another. -/
def textBetween (text : List Char) (first last : Token) : String :=
  String.ofList (slice first.place.offset last.stopOffset text)

structure TokenStream where
  body : Array Token
  stop : Token
deriving Repr

namespace TokenStream

/-- The number of tokens before the end of the text. -/
def size (s : TokenStream) : Nat :=
  s.body.size

/-- The token at a position; at the size and beyond it is the end of the text. -/
def get (s : TokenStream) (position : Nat) : Token :=
  s.body[position]?.getD s.stop

def toList (s : TokenStream) : List Token :=
  s.body.toList ++ [s.stop]

theorem get_of_size_le (s : TokenStream) {position : Nat} (h : s.size ≤ position) :
    s.get position = s.stop := by
  have none : s.body[position]? = none := by
    simpa [size] using h
  simp [get, none]

theorem get_min_size (s : TokenStream) (position : Nat) :
    s.get (min position s.size) = s.get position := by
  by_cases h : position ≤ s.size
  · rw [Nat.min_eq_left h]
  · have hpast := Nat.le_of_not_le h
    rw [Nat.min_eq_right hpast, s.get_of_size_le hpast, s.get_of_size_le (Nat.le_refl _)]

theorem getElem_body (s : TokenStream) {position : Nat} (h : position < s.body.toList.length) :
    s.body.toList[position] = s.get position := by
  rw [get, ← Array.getElem?_toList, List.getElem?_eq_getElem h]
  rfl

theorem take_body_succ (s : TokenStream) {position : Nat} (h : position < s.size) :
    s.body.toList.take (position + 1) = s.body.toList.take position ++ [s.get position] := by
  have hlength : position < s.body.toList.length := h
  rw [List.take_add_one, List.getElem?_eq_getElem hlength, s.getElem_body hlength]
  rfl

end TokenStream

namespace TokenKind

/-- After such a token a slash divides; elsewhere it opens a regular expression. -/
def endsOperand : TokenKind → Bool
  | .identifier | .number _ | .string _ | .boolean _ | .regExp _ _ => true
  | .keyword word => word = .thisWord || word = .nullWord
  | .punctuator mark =>
      mark = .closeParen || mark = .closeBracket || mark = .closeBrace ||
        mark = .plusPlus || mark = .minusMinus
  | .endOfText => false

/-- The text of all tokens of a kind, where they have the same text. -/
def fixedText : TokenKind → String
  | .keyword word => word.text
  | .punctuator mark => mark.text
  | _ => ""

/-!
## Kinds shown to a reader
-/

def name : TokenKind → String
  | .identifier => "Identifier"
  | .number _ => "NumberLiteral"
  | .string _ => "StringLiteral"
  | .boolean _ => "BooleanLiteral"
  | .regExp _ _ => "RegExpLiteral"
  | .keyword _ => "Keyword"
  | .punctuator mark => mark.name
  | .endOfText => "Eof"

/-- The name of a kind with its value, if it has one. -/
def shown (kind : TokenKind) : String :=
  match kind with
  | .number value => s!"{kind.name}({value.shown})"
  | .string value => s!"{kind.name}({Text.shown value})"
  | .boolean value => s!"{kind.name}({value})"
  | .regExp pattern flags =>
      kind.name ++ " \x7b pattern: " ++ Text.shown pattern ++ ", flags: " ++
        Text.shown flags ++ " \x7d"
  | .keyword word => s!"{kind.name}({word.name})"
  | .identifier | .punctuator _ | .endOfText => kind.name

end TokenKind
end Token
end ScriptHints

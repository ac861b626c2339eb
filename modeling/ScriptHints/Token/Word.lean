import ScriptHints.Text.Alphabetic
import ScriptHints.Text.Numeric
import ScriptHints.Token.Basic
import ScriptHints.Token.Reading

/-!
# Words

Identifiers, keywords and the two boolean literals are written as words: a letter, an
underscore or a dollar sign, and then any number of these and of numeric characters.
-/

namespace ScriptHints
namespace Token

open Text

def isWordStart (c : Char) : Bool :=
  c = '_' || c = '$' || isAlphabetic c

def isWordPart (c : Char) : Bool :=
  isWordStart c || isNumeric c

def startsWord : List Char → Bool
  | [] => false
  | c :: _ => isWordStart c

def kindOfWord (word : String) : TokenKind :=
  match Keyword.ofText? word with
  | some k => .keyword k
  | none =>
      if word = "true" then .boolean true
      else if word = "false" then .boolean false
      else .identifier

/-- The longest piece of word characters. -/
def wordTail (text : List Char) : Reading Unit :=
  Reading.run isWordPart text

theorem splits_wordTail (text : List Char) : (wordTail text).Splits text :=
  Reading.splits_run isWordPart text

end Token
end ScriptHints

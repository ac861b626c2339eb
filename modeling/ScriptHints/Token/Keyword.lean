/-!
# Keywords

The reserved words of the script language. `true` and `false` are literals and not
among them. Each keyword has the word it is written as and a name by which tokens are
shown to a reader.
-/

namespace ScriptHints
namespace Token

inductive Keyword where
  | breakWord | caseWord | catchWord | continueWord | defaultWord
  | deleteWord | doWord | elseWord | finallyWord | forWord
  | functionWord | ifWord | inWord | instanceofWord | newWord
  | nullWord | returnWord | switchWord | thisWord | throwWord
  | tryWord | typeofWord | varWord | voidWord | whileWord
  | withWord
deriving DecidableEq, Repr

namespace Keyword

def text : Keyword → String
  | .breakWord => "break"
  | .caseWord => "case"
  | .catchWord => "catch"
  | .continueWord => "continue"
  | .defaultWord => "default"
  | .deleteWord => "delete"
  | .doWord => "do"
  | .elseWord => "else"
  | .finallyWord => "finally"
  | .forWord => "for"
  | .functionWord => "function"
  | .ifWord => "if"
  | .inWord => "in"
  | .instanceofWord => "instanceof"
  | .newWord => "new"
  | .nullWord => "null"
  | .returnWord => "return"
  | .switchWord => "switch"
  | .thisWord => "this"
  | .throwWord => "throw"
  | .tryWord => "try"
  | .typeofWord => "typeof"
  | .varWord => "var"
  | .voidWord => "void"
  | .whileWord => "while"
  | .withWord => "with"

/-- The word with a capital first letter. -/
def name : Keyword → String
  | .breakWord => "Break"
  | .caseWord => "Case"
  | .catchWord => "Catch"
  | .continueWord => "Continue"
  | .defaultWord => "Default"
  | .deleteWord => "Delete"
  | .doWord => "Do"
  | .elseWord => "Else"
  | .finallyWord => "Finally"
  | .forWord => "For"
  | .functionWord => "Function"
  | .ifWord => "If"
  | .inWord => "In"
  | .instanceofWord => "Instanceof"
  | .newWord => "New"
  | .nullWord => "Null"
  | .returnWord => "Return"
  | .switchWord => "Switch"
  | .thisWord => "This"
  | .throwWord => "Throw"
  | .tryWord => "Try"
  | .typeofWord => "Typeof"
  | .varWord => "Var"
  | .voidWord => "Void"
  | .whileWord => "While"
  | .withWord => "With"

def all : List Keyword :=
  [ .breakWord, .caseWord, .catchWord, .continueWord, .defaultWord,
    .deleteWord, .doWord, .elseWord, .finallyWord, .forWord,
    .functionWord, .ifWord, .inWord, .instanceofWord, .newWord,
    .nullWord, .returnWord, .switchWord, .thisWord, .throwWord,
    .tryWord, .typeofWord, .varWord, .voidWord, .whileWord,
    .withWord ]

theorem mem_all (k : Keyword) : k ∈ all := by
  cases k <;> decide

def ofText? (word : String) : Option Keyword :=
  all.find? fun k => k.text = word

theorem text_of_ofText? {word : String} {k : Keyword} (h : ofText? word = some k) :
    k.text = word := by
  simpa using List.find?_some h

end Keyword
end Token
end ScriptHints

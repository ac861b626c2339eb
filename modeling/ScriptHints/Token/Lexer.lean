import ScriptHints.Token.Item

/-!
# The lexer

A lexer walks through a text item by item. Its state is what is left of the text, the
place reached, whether a line ended since the last token, and whether the last token
ends an operand. A run collects tokens up to the end of the text or to the first fault.
The state reached is kept either way, so a lexer can be run again.
-/

namespace ScriptHints
namespace Token

open Text

structure Lexer where
  rest : List Char
  place : Place
  newline : Bool
  afterOperand : Bool
deriving Repr

namespace Lexer

def ofText (text : String) : Lexer :=
  { rest := text.toList, place := Place.start, newline := false, afterOperand := false }

/-- Comments count for line breaks, whether they are complete or not; literals do not. -/
def breaksLine (item : Item) (taken : List Char) : Bool :=
  match item with
  | .trivia | .fault .unterminatedComment => taken.any isLineTerminator
  | _ => false

/-- The state behind an item. -/
def after (l : Lexer) (r : Reading Item) : Lexer :=
  { rest := r.rest
    place := l.place.after r.taken
    newline :=
      match r.value with
      | .token _ => false
      | item => l.newline || breaksLine item r.taken
    afterOperand :=
      match r.value with
      | .token kind => kind.endsOperand
      | _ => l.afterOperand }

/-- A token that begins where the lexer stands. -/
def tokenHere (l : Lexer) (kind : TokenKind) (lexeme : List Char) : Token :=
  { kind := kind, lexeme := String.ofList lexeme, place := l.place, newlineBefore := l.newline }

/-- The tokens up to the end of the text and the token that stands for the end. -/
def run (l : Lexer) : Except LexicalError (List Token × Token) × Lexer :=
  match _h : l.rest with
  | [] => (.ok ([], l.tokenHere .endOfText []), { l with newline := false })
  | c :: text =>
      let found := item l.afterOperand c text
      match _v : found.value with
      | .fault fault => (.error { fault := fault, place := l.place }, l.after found)
      | .trivia => (l.after found).run
      | .token kind =>
          let (result, last) := (l.after found).run
          (result.map fun (body, stop) => (l.tokenHere kind found.taken :: body, stop), last)
termination_by l.rest.length
decreasing_by
  all_goals
    rw [_h]
    exact (splits_item l.afterOperand c text).length_rest_lt
      (taken_item_ne_nil l.afterOperand c text (by simp_all [found]))

def tokenize (l : Lexer) : Except LexicalError TokenStream × Lexer :=
  let (result, last) := l.run
  (result.map fun (body, stop) => { body := body.toArray, stop := stop }, last)

end Lexer

/-- The tokens of a text that is read from its beginning. -/
def tokensOf (text : String) : Except LexicalError TokenStream :=
  (Lexer.ofText text).tokenize.1

end Token
end ScriptHints

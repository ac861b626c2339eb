/-!
# Punctuators

The punctuators of the script language. Where several of them begin the same text the
longest one is meant, so they are listed with the longer ones first.
-/

namespace ScriptHints
namespace Token

inductive Punctuator where
  | greaterGreaterGreaterEqual | tripleEqual | bangDoubleEqual | greaterGreaterGreater
  | lessLessEqual | greaterGreaterEqual | doubleEqual | bangEqual
  | lessEqual | greaterEqual | lessLess | greaterGreater
  | plusPlus | minusMinus | ampersandAmpersand | pipePipe
  | plusEqual | minusEqual | starEqual | slashEqual
  | percentEqual | ampersandEqual | pipeEqual | caretEqual
  | openParen | closeParen | openBrace | closeBrace
  | openBracket | closeBracket | comma | dot
  | colon | semicolon | question | equal
  | bang | greater | less | plus
  | minus | star | slash | percent
  | ampersand | pipe | caret | tilde
deriving DecidableEq, Repr

namespace Punctuator

def chars : Punctuator → List Char
  | .greaterGreaterGreaterEqual => ['>', '>', '>', '=']
  | .tripleEqual => ['=', '=', '=']
  | .bangDoubleEqual => ['!', '=', '=']
  | .greaterGreaterGreater => ['>', '>', '>']
  | .lessLessEqual => ['<', '<', '=']
  | .greaterGreaterEqual => ['>', '>', '=']
  | .doubleEqual => ['=', '=']
  | .bangEqual => ['!', '=']
  | .lessEqual => ['<', '=']
  | .greaterEqual => ['>', '=']
  | .lessLess => ['<', '<']
  | .greaterGreater => ['>', '>']
  | .plusPlus => ['+', '+']
  | .minusMinus => ['-', '-']
  | .ampersandAmpersand => ['&', '&']
  | .pipePipe => ['|', '|']
  | .plusEqual => ['+', '=']
  | .minusEqual => ['-', '=']
  | .starEqual => ['*', '=']
  | .slashEqual => ['/', '=']
  | .percentEqual => ['%', '=']
  | .ampersandEqual => ['&', '=']
  | .pipeEqual => ['|', '=']
  | .caretEqual => ['^', '=']
  | .openParen => ['(']
  | .closeParen => [')']
  | .openBrace => ['{']
  | .closeBrace => ['}']
  | .openBracket => ['[']
  | .closeBracket => [']']
  | .comma => [',']
  | .dot => ['.']
  | .colon => [':']
  | .semicolon => [';']
  | .question => ['?']
  | .equal => ['=']
  | .bang => ['!']
  | .greater => ['>']
  | .less => ['<']
  | .plus => ['+']
  | .minus => ['-']
  | .star => ['*']
  | .slash => ['/']
  | .percent => ['%']
  | .ampersand => ['&']
  | .pipe => ['|']
  | .caret => ['^']
  | .tilde => ['~']

def text (p : Punctuator) : String :=
  String.ofList p.chars

/-- The name by which tokens are shown to a reader. -/
def name : Punctuator → String
  | .greaterGreaterGreaterEqual => "GreaterGreaterGreaterEqual"
  | .tripleEqual => "TripleEqual"
  | .bangDoubleEqual => "BangDoubleEqual"
  | .greaterGreaterGreater => "GreaterGreaterGreater"
  | .lessLessEqual => "LessLessEqual"
  | .greaterGreaterEqual => "GreaterGreaterEqual"
  | .doubleEqual => "DoubleEqual"
  | .bangEqual => "BangEqual"
  | .lessEqual => "LessEqual"
  | .greaterEqual => "GreaterEqual"
  | .lessLess => "LessLess"
  | .greaterGreater => "GreaterGreater"
  | .plusPlus => "PlusPlus"
  | .minusMinus => "MinusMinus"
  | .ampersandAmpersand => "AmpersandAmpersand"
  | .pipePipe => "PipePipe"
  | .plusEqual => "PlusEqual"
  | .minusEqual => "MinusEqual"
  | .starEqual => "StarEqual"
  | .slashEqual => "SlashEqual"
  | .percentEqual => "PercentEqual"
  | .ampersandEqual => "AmpersandEqual"
  | .pipeEqual => "PipeEqual"
  | .caretEqual => "CaretEqual"
  | .openParen => "LParen"
  | .closeParen => "RParen"
  | .openBrace => "LBrace"
  | .closeBrace => "RBrace"
  | .openBracket => "LBracket"
  | .closeBracket => "RBracket"
  | .comma => "Comma"
  | .dot => "Dot"
  | .colon => "Colon"
  | .semicolon => "Semicolon"
  | .question => "Question"
  | .equal => "Equal"
  | .bang => "Bang"
  | .greater => "Greater"
  | .less => "Less"
  | .plus => "Plus"
  | .minus => "Minus"
  | .star => "Star"
  | .slash => "Slash"
  | .percent => "Percent"
  | .ampersand => "Ampersand"
  | .pipe => "Pipe"
  | .caret => "Caret"
  | .tilde => "Tilde"

def all : List Punctuator :=
  [ .greaterGreaterGreaterEqual, .tripleEqual, .bangDoubleEqual, .greaterGreaterGreater,
    .lessLessEqual, .greaterGreaterEqual, .doubleEqual, .bangEqual,
    .lessEqual, .greaterEqual, .lessLess, .greaterGreater,
    .plusPlus, .minusMinus, .ampersandAmpersand, .pipePipe,
    .plusEqual, .minusEqual, .starEqual, .slashEqual,
    .percentEqual, .ampersandEqual, .pipeEqual, .caretEqual,
    .openParen, .closeParen, .openBrace, .closeBrace,
    .openBracket, .closeBracket, .comma, .dot,
    .colon, .semicolon, .question, .equal,
    .bang, .greater, .less, .plus,
    .minus, .star, .slash, .percent,
    .ampersand, .pipe, .caret, .tilde ]

theorem mem_all (p : Punctuator) : p ∈ all := by
  cases p <;> decide

theorem chars_ne_nil (p : Punctuator) : p.chars ≠ [] := by
  cases p <;> simp [chars]

/-- The longest punctuator at the beginning of a text. -/
def longest? (text : List Char) : Option Punctuator :=
  all.find? fun p => p.chars.isPrefixOf text

theorem longest?_isPrefix {text : List Char} {p : Punctuator} (h : longest? text = some p) :
    p.chars <+: text := by
  simpa using List.find?_some h

/-- No punctuator is longer than the ones listed before it. -/
theorem all_sorted : all.Pairwise fun p q => q.chars.length ≤ p.chars.length := by
  decide

end Punctuator
end Token
end ScriptHints

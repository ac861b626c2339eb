import ScriptHints.Text.Blank
import ScriptHints.Token.Comment
import ScriptHints.Token.LexicalError
import ScriptHints.Token.NumericLiteral
import ScriptHints.Token.RegExpLiteral

/-!
# Items of a text

A text is a sequence of items. An item is trivia (a blank, a line break, a comment), a
token, or a fault. Its first characters tell what it is; only a slash needs to know
whether an operand stands before it, because it divides there and opens a regular
expression elsewhere. Every item takes at least one character, except for a character
that begins no item.
-/

namespace ScriptHints
namespace Token

open Text

inductive Item where
  | trivia
  | token (kind : TokenKind)
  | fault (fault : LexicalFault)
deriving Repr

/-!
## The kinds of items
-/

/-- A line terminator; a carriage return takes a line feed behind it along. -/
def lineBreak (c : Char) (text : List Char) : Reading Item :=
  match c, text with
  | '\r', '\n' :: more => ⟨.trivia, ['\r', '\n'], more⟩
  | _, _ => ⟨.trivia, [c], text⟩

def lineCommentItem (text : List Char) : Reading Item :=
  ((lineComment text).map fun _ => Item.trivia).extend ['/', '/']

def blockCommentItem (text : List Char) : Reading Item :=
  ((blockCommentTail text).map fun closed =>
    if closed then .trivia else .fault .unterminatedComment).extend ['/', '*']

def regExpItem (text : List Char) : Reading Item :=
  ((regExpTail text).map fun
    | some (pattern, flags) => .token (.regExp (String.ofList pattern) (String.ofList flags))
    | none => .fault .unterminatedRegExp).extend ['/']

def stringItem (quote : Char) (text : List Char) : Reading Item :=
  ((stringTail quote text).map fun
    | some value => .token (.string (String.ofList value))
    | none => .fault .unterminatedString).extend [quote]

def numberItem (text : List Char) : Reading Item :=
  let literal := numericLiteral text
  literal.map fun
    | some value => .token (.number value)
    | none => .fault (.invalidNumber (String.ofList literal.taken))

def wordItem (c : Char) (text : List Char) : Reading Item :=
  let word := (wordTail text).extend [c]
  word.map fun _ => .token (kindOfWord (String.ofList word.taken))

def punctuatorItem (c : Char) (text : List Char) : Reading Item :=
  match Punctuator.longest? (c :: text) with
  | some mark => ⟨.token (.punctuator mark), mark.chars, (c :: text).drop mark.chars.length⟩
  | none => ⟨.fault (.unexpectedCharacter c), [], c :: text⟩

/-!
## The item at the front of a text
-/

/-- A digit, or a point with a digit behind it. -/
def startsNumber (c : Char) (text : List Char) : Bool :=
  c.isDigit || (c = '.' && text.head?.any Char.isDigit)

/-- The item that begins with `c`. -/
def item (afterOperand : Bool) (c : Char) (text : List Char) : Reading Item :=
  if isScriptBlank c then ⟨.trivia, [c], text⟩
  else if isLineTerminator c then lineBreak c text
  else if c = '/' && text.head? = some '/' then lineCommentItem (text.drop 1)
  else if c = '/' && text.head? = some '*' then blockCommentItem (text.drop 1)
  else if c = '/' && !afterOperand then regExpItem text
  else if c = '"' || c = '\'' then stringItem c text
  else if startsNumber c text then numberItem (c :: text)
  else if isWordStart c then wordItem c text
  else punctuatorItem c text

/-!
## Nothing is lost, and something is taken
-/

theorem splits_punctuatorItem (c : Char) (text : List Char) :
    (punctuatorItem c text).Splits (c :: text) := by
  unfold punctuatorItem
  split
  next mark h =>
    rcases Punctuator.longest?_isPrefix h with ⟨more, whole⟩
    simp [Reading.Splits, ← whole]
  · rfl

theorem eq_cons_drop_of_head? {text : List Char} {c : Char} (h : text.head? = some c) :
    text = c :: text.drop 1 := by
  cases text <;> simp_all

theorem splits_item (afterOperand : Bool) (c : Char) (text : List Char) :
    (item afterOperand c text).Splits (c :: text) := by
  unfold item
  repeat' split
  · rfl
  · unfold lineBreak
    split <;> rfl
  next h =>
    simp only [Bool.and_eq_true, decide_eq_true_eq] at h
    rw [h.1, eq_cons_drop_of_head? h.2]
    exact ((splits_lineComment _).map _).extend ['/', '/']
  next h =>
    simp only [Bool.and_eq_true, decide_eq_true_eq] at h
    rw [h.1, eq_cons_drop_of_head? h.2]
    exact ((splits_blockCommentTail _).map _).extend ['/', '*']
  next h =>
    simp only [Bool.and_eq_true, decide_eq_true_eq] at h
    rw [h.1]
    exact ((splits_regExpTail _).map _).extend ['/']
  · exact ((splits_stringTail c text).map _).extend [c]
  · exact (splits_numericLiteral (c :: text)).map _
  · exact ((splits_wordTail text).extend [c]).map _
  · exact splits_punctuatorItem c text

theorem taken_decimalLiteral_ne_nil {c : Char} {text : List Char}
    (h : startsNumber c text = true) : (decimalLiteral (c :: text)).taken ≠ [] := by
  simp only [startsNumber, Bool.or_eq_true, Bool.and_eq_true, decide_eq_true_eq] at h
  by_cases digit : c.isDigit = true
  · simp [decimalLiteral, Reading.run, digit]
  · rcases h with h | ⟨point, _⟩
    · exact absurd h digit
    · subst point
      simp [decimalLiteral, Reading.run, fractionPart, Reading.extend, Reading.map]

theorem taken_numericLiteral_ne_nil {c : Char} {text : List Char}
    (h : startsNumber c text = true) : (numericLiteral (c :: text)).taken ≠ [] := by
  unfold numericLiteral
  split
  · simp [Reading.extend]
  · simp [Reading.extend]
  · exact taken_decimalLiteral_ne_nil h

/-- Only a character that begins no item leaves the text as it is. -/
theorem taken_item_ne_nil (afterOperand : Bool) (c : Char) (text : List Char)
    (h : (item afterOperand c text).value ≠ .fault (.unexpectedCharacter c)) :
    (item afterOperand c text).taken ≠ [] := by
  unfold item at h ⊢
  repeat' split
  · simp
  · unfold lineBreak
    split <;> simp
  · simp [lineCommentItem, Reading.extend]
  · simp [blockCommentItem, Reading.extend]
  · simp [regExpItem, Reading.extend]
  · simp [stringItem, Reading.extend]
  next number => exact taken_numericLiteral_ne_nil number
  · simp [wordItem, Reading.extend, Reading.map]
  · simp_all only
    unfold punctuatorItem at h ⊢
    split
    next mark _ => exact Punctuator.chars_ne_nil mark
    next none => simp [none] at h

end Token
end ScriptHints

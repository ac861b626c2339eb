import ScriptHints.Text.CodePoint
import ScriptHints.Text.Place
import ScriptHints.Number.Decimal
import ScriptHints.Token.Reading

/-!
# String literals

A literal is made of plain characters and of escapes, which begin with a backslash. An
escape stands for one character, or for none when it continues the literal on the next
line. A literal that meets a line terminator or the end of the text before its closing
quote has no value.
-/

namespace ScriptHints
namespace Token

open Number Text

/-!
## Escapes
-/

/--
The character that the next `count` hexadecimal digits spell.

Without that many digits, or when they spell no character, the letter of the escape
stands for itself and no digit is taken.
-/
def hexEscape (count : Nat) (letter : Char) (text : List Char) : Reading (List Char) :=
  let digits := text.take count
  let decoded := charOfCode? (ofDigits 16 digits)
  match digits.length = count && digits.all isHexDigit, decoded with
  | true, some c => ⟨[c], digits, text.drop count⟩
  | _, _ => ⟨[letter], [], text⟩

/--
A line continuation stands for nothing.

A carriage return takes the line feed that completes it and one more line feed.
-/
def continuation (c : Char) (text : List Char) : Reading (List Char) :=
  match c, text with
  | '\r', '\n' :: '\n' :: more => ⟨[], ['\r', '\n', '\n'], more⟩
  | '\r', '\n' :: more => ⟨[], ['\r', '\n'], more⟩
  | _, _ => ⟨[], [c], text⟩

/-- An escape from the character behind its backslash on. -/
def escape (c : Char) (text : List Char) : Reading (List Char) :=
  match c with
  | 'n' => ⟨['\n'], [c], text⟩
  | 'r' => ⟨['\r'], [c], text⟩
  | 't' => ⟨['\t'], [c], text⟩
  | 'b' => ⟨['\x08'], [c], text⟩
  | 'f' => ⟨['\x0c'], [c], text⟩
  | 'v' => ⟨['\x0b'], [c], text⟩
  | '0' => ⟨['\x00'], [c], text⟩
  | 'x' => (hexEscape 2 c text).extend [c]
  | 'u' => (hexEscape 4 c text).extend [c]
  | _ => if isLineTerminator c then continuation c text else ⟨[c], [c], text⟩

theorem splits_hexEscape (count : Nat) (letter : Char) (text : List Char) :
    (hexEscape count letter text).Splits text := by
  unfold hexEscape
  dsimp only
  split
  · simp [Reading.Splits]
  · simp [Reading.Splits]

theorem splits_continuation (c : Char) (text : List Char) :
    (continuation c text).Splits (c :: text) := by
  unfold continuation
  split <;> rfl

theorem splits_escape (c : Char) (text : List Char) :
    (escape c text).Splits (c :: text) := by
  unfold escape
  split
  case h_8 => exact (splits_hexEscape 2 _ text).extend _
  case h_9 => exact (splits_hexEscape 4 _ text).extend _
  case h_10 =>
    split
    · exact splits_continuation c text
    · rfl
  all_goals rfl

theorem length_rest_escape_lt (c : Char) (text : List Char) :
    (escape c text).rest.length < (c :: text).length + 1 := by
  have := (splits_escape c text).length_rest_le
  omega

/-!
## Literals
-/

/-- The inside of a literal with its closing quote. -/
def stringTail (quote : Char) : List Char → Reading (Option (List Char))
  | [] => ⟨none, [], []⟩
  | c :: text =>
      if c = quote then
        ⟨some [], [c], text⟩
      else if c = '\\' then
        match text with
        | [] => ⟨none, [c], []⟩
        | e :: more =>
            let piece := escape e more
            ((stringTail quote piece.rest).map (·.map (piece.value ++ ·))).extend
              (c :: piece.taken)
      else if isLineTerminator c then
        ⟨none, [], c :: text⟩
      else
        ((stringTail quote text).map (·.map (c :: ·))).extend [c]
termination_by text => text.length
decreasing_by
  · exact length_rest_escape_lt e more
  · simp

theorem splits_stringTail (quote : Char) (text : List Char) :
    (stringTail quote text).Splits text := by
  fun_induction stringTail quote text with
  | case1 => rfl
  | case2 text => rfl
  | case3 => rfl
  | case4 e more piece _ ih =>
      have whole := (ih.map (·.map (piece.value ++ ·))).extend ('\\' :: piece.taken)
      have parts : piece.taken ++ piece.rest = e :: more := splits_escape e more
      simpa [parts] using whole
  | case5 c text _ _ _ => rfl
  | case6 c text _ _ _ ih => exact (ih.map _).extend [c]

end Token
end ScriptHints

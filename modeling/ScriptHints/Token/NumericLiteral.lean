import ScriptHints.Number.Decimal
import ScriptHints.Token.StringLiteral
import ScriptHints.Token.Word

/-!
# Numeric literals

A literal is hexadecimal when it begins with a zero and an `x`, and decimal otherwise.
Hexadecimal digits must spell a number of at most 64 bits. A decimal literal has whole
digits, a fraction and an exponent, of which the last two may be missing, and no word
may begin right behind it. An exponent mark without digits is not part of the literal.
-/

namespace ScriptHints
namespace Token

open Number Text

def hexLiteralTail (text : List Char) : Reading (Option Binary64) :=
  let digits := Reading.run isHexDigit text
  let n := ofDigits 16 digits.taken
  let valid := !digits.taken.isEmpty && decide (n < Nat.pow 2 64)
  digits.map fun _ => if valid then some (Binary64.ofNat n) else none

/-- The digits behind a point, if there is a point. -/
def fractionPart (text : List Char) : Reading (List Char) :=
  match text with
  | '.' :: more =>
      let digits := Reading.run Char.isDigit more
      (digits.map fun _ => digits.taken).extend ['.']
  | _ => ⟨[], [], text⟩

/-- True for a minus sign. -/
def signPart (text : List Char) : Reading Bool :=
  match text with
  | '+' :: more => ⟨false, ['+'], more⟩
  | '-' :: more => ⟨true, ['-'], more⟩
  | _ => ⟨false, [], text⟩

def exponentPart (text : List Char) : Reading Int :=
  match text with
  | [] => ⟨0, [], []⟩
  | mark :: more =>
      let sign := signPart more
      let digits := Reading.run Char.isDigit sign.rest
      if (mark = 'e' || mark = 'E') && !digits.taken.isEmpty then
        let n := ofDigits 10 digits.taken
        ⟨if sign.value then -n else n, mark :: (sign.taken ++ digits.taken), digits.rest⟩
      else
        ⟨0, [], text⟩

def decimalLiteral (text : List Char) : Reading Decimal :=
  let whole := Reading.run Char.isDigit text
  let fraction := fractionPart whole.rest
  let exponent := exponentPart fraction.rest
  { value :=
      { coefficient := ofDigits 10 (whole.taken ++ fraction.value)
        exponent := exponent.value - fraction.value.length }
    taken := whole.taken ++ (fraction.taken ++ exponent.taken)
    rest := exponent.rest }

/-- A literal from its first character on; without a value when it is malformed. -/
def numericLiteral (text : List Char) : Reading (Option Binary64) :=
  match text with
  | '0' :: 'x' :: more => (hexLiteralTail more).extend ['0', 'x']
  | '0' :: 'X' :: more => (hexLiteralTail more).extend ['0', 'X']
  | _ =>
      let decimal := decimalLiteral text
      decimal.map fun d => if startsWord decimal.rest then none else some d.toBinary64

/-!
## Nothing is lost
-/

theorem splits_hexLiteralTail (text : List Char) : (hexLiteralTail text).Splits text :=
  (Reading.splits_run isHexDigit text).map _

theorem splits_fractionPart (text : List Char) : (fractionPart text).Splits text := by
  unfold fractionPart
  split
  · exact ((Reading.splits_run Char.isDigit _).map _).extend _
  · rfl

theorem splits_signPart (text : List Char) : (signPart text).Splits text := by
  unfold signPart
  split <;> rfl

theorem splits_exponentPart (text : List Char) : (exponentPart text).Splits text := by
  unfold exponentPart
  split
  · rfl
  next mark more =>
    dsimp only
    split
    · have sign : (signPart more).taken ++ (signPart more).rest = more := splits_signPart more
      have digits := Reading.splits_run Char.isDigit (signPart more).rest
      unfold Reading.Splits at digits ⊢
      simp [digits, sign]
    · rfl

theorem splits_decimalLiteral (text : List Char) : (decimalLiteral text).Splits text := by
  have whole := Reading.splits_run Char.isDigit text
  have fraction := splits_fractionPart (Reading.run Char.isDigit text).rest
  have exponent := splits_exponentPart (fractionPart (Reading.run Char.isDigit text).rest).rest
  unfold Reading.Splits at *
  simp [decimalLiteral, exponent, fraction, whole]

theorem splits_numericLiteral (text : List Char) : (numericLiteral text).Splits text := by
  unfold numericLiteral
  split
  · exact (splits_hexLiteralTail _).extend _
  · exact (splits_hexLiteralTail _).extend _
  · exact (splits_decimalLiteral text).map _

end Token
end ScriptHints

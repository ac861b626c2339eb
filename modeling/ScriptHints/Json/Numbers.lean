import ScriptHints.Json.Reader
import ScriptHints.Number.Decimal

/-!
# Numbers of JSON

A number has whole digits without needless zeros, and perhaps a fraction and an exponent,
each with at least one digit. A number whose value counts has to be in the range of binary64
as well. The value is that of a reader that keeps the digits in a word of 64 bits and then
multiplies by a power of ten; next to the bound of the range it may differ from the exact one.
-/

namespace ScriptHints
namespace Json

open Number

def isDigitByte (b : UInt8) : Bool :=
  (Char.ofUInt8 b).isDigit

/-- One digit or more. -/
def digitBytes : JsonReader (List Char) := do
  let bytes ← get
  match bytes.takeWhile isDigitByte, bytes.dropWhile isDigitByte with
  | [], [] => throw .endOfText
  | [], _ => throw .malformed
  | digits, rest =>
      set rest
      return digits.map Char.ofUInt8

/-- Takes the next byte if it is one of the characters. -/
def takeOneOf (chars : List Char) : JsonReader (Option Char) := do
  match ← get with
  | [] => return none
  | b :: bytes =>
      let c := Char.ofUInt8 b
      if chars.contains c then
        set bytes
        return some c
      else
        return none

def wholeDigits : JsonReader (List Char) := do
  let digits ← digitBytes
  if digits.head? = some '0' && digits.length != 1 then
    throw .malformed
  else
    return digits

def fractionDigits : JsonReader (List Char) := do
  match ← takeOneOf ['.'] with
  | some _ => digitBytes
  | none => return []

def exponent : JsonReader Int := do
  match ← takeOneOf ['e', 'E'] with
  | none => return 0
  | some _ =>
      let sign ← takeOneOf ['+', '-']
      let n := ofDigits 10 (← digitBytes)
      return if sign = some '-' then -n else n

/-!
## Magnitudes
-/

/-- Digits are put behind a coefficient as long as it fits into 64 bits; what is left of the
digits comes back with it. -/
def extendWord (coefficient : Nat) : List Char → Nat × List Char
  | [] => (coefficient, [])
  | c :: digits =>
      let longer := coefficient * 10 + digitValue c
      if longer < Nat.pow 2 64 then extendWord longer digits else (coefficient, c :: digits)

theorem extendWord_fits (coefficient : Nat) (digits : List Char)
    (fits : coefficient < Nat.pow 2 64) : (extendWord coefficient digits).1 < Nat.pow 2 64 := by
  induction digits generalizing coefficient with
  | nil => exact fits
  | cons c digits ih =>
      unfold extendWord
      by_cases longer : coefficient * 10 + digitValue c < Nat.pow 2 64
      · simpa only [if_pos longer] using ih _ longer
      · simpa only [if_neg longer] using fits

/-- The decimal that the digits around the point give. Whole digits that do not fit raise the
exponent instead, and digits of the fraction that do not fit are dropped. -/
def wordDecimal (whole fraction : List Char) (exponent : Int) : Decimal :=
  let (leading, raised) := extendWord 0 whole
  let (coefficient, dropped) := extendWord leading fraction
  { coefficient
    exponent := exponent + raised.length + dropped.length - fraction.length }

/-- The magnitude of a number, from behind its sign on. -/
def magnitude : JsonReader Decimal := do
  let whole ← wholeDigits
  let fraction ← fractionDigits
  return wordDecimal whole fraction (← exponent)

/-- Neither the power of ten nor the product with it leaves the range. -/
def isInRange (d : Decimal) : Bool :=
  d.coefficient == 0 || decide (d.exponent < 0) ||
    (decide (d.exponent ≤ 308) &&
      ((Binary64.ofNat d.coefficient).times
        (Binary64.ofNat (Nat.pow 10 d.exponent.toNat))).isFinite)

/-- A number whose value counts. -/
def number : JsonReader Unit := do
  unless isInRange (← magnitude) do
    throw .malformed

/-- A number that is passed over: whatever is wrong with it, it is malformed. -/
def skipMagnitude : JsonReader Unit := do
  try
    let _ ← magnitude
  catch _ =>
    throw .malformed

end Json
end ScriptHints

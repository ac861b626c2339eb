import ScriptHints.Number.Binary64

/-!
# Decimals

A decimal is a whole coefficient times a power of ten. Numerals are read as decimals
and then rounded once to binary64, so the rounding is that of the exact value however
long the numeral is.
-/

namespace ScriptHints
namespace Number

structure Decimal where
  coefficient : Nat
  exponent : Int
deriving DecidableEq, Repr

/-- The value of a digit in any base up to sixteen; other characters count as zero. -/
def digitValue (c : Char) : Nat :=
  if c.isDigit then c.toNat - '0'.toNat
  else if 'a' ≤ c ∧ c ≤ 'f' then c.toNat - 'a'.toNat + 10
  else if 'A' ≤ c ∧ c ≤ 'F' then c.toNat - 'A'.toNat + 10
  else 0

/-- The number that digits spell in a base, the most significant digit first. -/
def ofDigits (base : Nat) (digits : List Char) : Nat :=
  digits.foldl (fun value c => value * base + digitValue c) 0

theorem ofDigits_snoc (base : Nat) (digits : List Char) (c : Char) :
    ofDigits base (digits ++ [c]) = ofDigits base digits * base + digitValue c := by
  simp [ofDigits]

def digits (n : Nat) : List Char :=
  Nat.toDigits 10 n

namespace Decimal

/-- The number of decimal digits before the point of the value, below one when
the value is less than a tenth. -/
def magnitude (d : Decimal) : Int :=
  (digits d.coefficient).length + d.exponent

/--
The binary64 value nearest to a decimal.

Values with more than 310 digits before the point are beyond the largest finite
value, and values below `10 ^ -400` are nearer to zero than to anything else; neither
is computed out.
-/
def toBinary64 (d : Decimal) : Binary64 :=
  if d.coefficient = 0 ∨ d.magnitude < -400 then Binary64.zero
  else if 310 < d.magnitude then Binary64.infinity
  else if 0 ≤ d.exponent then
    Binary64.nearest (d.coefficient * Nat.pow 10 d.exponent.toNat) 1
  else
    Binary64.nearest d.coefficient (Nat.pow 10 (-d.exponent).toNat)

end Decimal
end Number
end ScriptHints

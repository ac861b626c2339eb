/-!
# Binary floating point of 64 bits

A number of the script language is a binary64 value, given by its bit pattern. What
the library needs of it is the nearest value to an exact ratio and, back again, the
exact magnitude of a pattern. Magnitudes count multiples of the smallest positive
value, `2 ^ -1074`, so both directions stay within the natural numbers.
-/

namespace ScriptHints
namespace Number

structure Binary64 where
  bits : UInt64
deriving DecidableEq, Repr

/-- Division rounded to the nearest integer; a half goes to the even neighbour. -/
def roundHalfEven (num den : Nat) : Nat :=
  let down := num / den
  let twice := 2 * (num % den)
  if twice < den then down
  else if den < twice then down + 1
  else down + down % 2

namespace Binary64

def zero : Binary64 :=
  ⟨0⟩

def infinity : Binary64 :=
  ⟨0x7FF0000000000000⟩

/-!
## Rounding

For a ratio of `r` smallest values the significand keeps 53 bits of `r`, and the
lower bits are rounded away. The pattern of a finite positive value is `2 ^ 52` times
the number of bits dropped, plus the significand: a significand that rounds up to
`2 ^ 53` carries into the exponent by itself. Patterns from that of infinity on are
out of range.
-/

/-- The binary64 value nearest to `num / den`, for positive `den`. -/
def nearest (num den : Nat) : Binary64 :=
  let scaled := num * Nat.pow 2 1074
  let dropped := Nat.log2 (scaled / den) - 52
  let pattern := dropped * Nat.pow 2 52 + roundHalfEven scaled (den * Nat.pow 2 dropped)
  if pattern < infinity.bits.toNat then ⟨UInt64.ofNat pattern⟩ else infinity

def ofNat (n : Nat) : Binary64 :=
  nearest n 1

/-!
## Reading a pattern
-/

def isNegative (x : Binary64) : Bool :=
  decide (Nat.pow 2 63 ≤ x.bits.toNat)

def exponentField (x : Binary64) : Nat :=
  x.bits.toNat / Nat.pow 2 52 % Nat.pow 2 11

def fractionField (x : Binary64) : Nat :=
  x.bits.toNat % Nat.pow 2 52

/-- Neither infinite nor not a number. -/
def isFinite (x : Binary64) : Bool :=
  decide (x.exponentField < Nat.pow 2 11 - 1)

def isInfinite (x : Binary64) : Bool :=
  !x.isFinite && x.fractionField == 0

def significand (x : Binary64) : Nat :=
  if x.exponentField = 0 then x.fractionField else x.fractionField + Nat.pow 2 52

/-- The power of two that scales the significand, in smallest values. -/
def scale (x : Binary64) : Nat :=
  x.exponentField - 1

def magnitude (x : Binary64) : Nat :=
  x.significand * Nat.pow 2 x.scale

/-- The product of two finite positive values, rounded once. -/
def times (x y : Binary64) : Binary64 :=
  nearest (x.magnitude * y.magnitude) (Nat.pow 2 (2 * 1074))

end Binary64
end Number
end ScriptHints

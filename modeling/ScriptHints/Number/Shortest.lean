import ScriptHints.Number.Decimal

/-!
# Shortest decimals

The decimal with the fewest digits that reads back as a given binary64 value. The
decimals that read back fill an interval around the value, ends included when the
significand is even. Numbers of digits are tried from one upwards; on the grid of
decimals with that many digits only the two neighbours of the value can be the nearest
to it, so the first grid with a neighbour in the interval decides. Of two neighbours
the nearer one is taken and the upper one on a tie.
-/

namespace ScriptHints
namespace Number

/-!
## The interval that reads back

All three bounds count quarters of the smallest positive value. The gap below a power
of two is half the gap above it.
-/

structure Interval where
  low : Nat
  value : Nat
  high : Nat
  closed : Bool
deriving DecidableEq, Repr

def Binary64.interval (x : Binary64) : Interval :=
  let gap := Nat.pow 2 x.scale
  let below := if x.significand = Nat.pow 2 52 then gap else 2 * gap
  { low := 4 * x.magnitude - below
    value := 4 * x.magnitude
    high := 4 * x.magnitude + 2 * gap
    closed := x.significand % 2 == 0 }

namespace Interval

/-- How many quarters of the smallest value make one. -/
def unit : Nat :=
  Nat.pow 2 1076

/-- The bounds as multiples of `10 ^ exponent`, over a common denominator. -/
def scaled (i : Interval) (exponent : Int) : Interval × Nat :=
  let up := Nat.pow 10 (-exponent).toNat
  let down := Nat.pow 10 exponent.toNat
  ({ i with low := i.low * up, value := i.value * up, high := i.high * up }, unit * down)

def contains (i : Interval) (n : Nat) : Bool :=
  if i.closed then decide (i.low ≤ n) && decide (n ≤ i.high)
  else decide (i.low < n) && decide (n < i.high)

/-- The multiple of `10 ^ exponent` in the interval that is nearest to its value. -/
def onGrid? (i : Interval) (exponent : Int) : Option Decimal :=
  let (j, den) := i.scaled exponent
  let down := j.value / den
  let up := down + 1
  match j.contains (down * den), j.contains (up * den) with
  | true, true =>
      if j.value - down * den < up * den - j.value then some ⟨down, exponent⟩
      else some ⟨up, exponent⟩
  | true, false => some ⟨down, exponent⟩
  | false, true => some ⟨up, exponent⟩
  | false, false => none

/-- The number of digits before the decimal point of the value. -/
def pointPosition (i : Interval) : Int :=
  (digits (i.value * Nat.pow 10 400 / unit)).length - 400

end Interval

/-- The shortest decimal that reads back as a positive finite value. -/
def Binary64.shortest (x : Binary64) : Decimal :=
  let i := x.interval
  let position := i.pointPosition
  let grids := (List.range 17).map fun (n : Nat) => position - (n + 1)
  (grids.findSome? i.onGrid?).getD ⟨0, 0⟩

end Number
end ScriptHints

import ScriptHints.Number.Shortest

/-!
# Numbers shown to a reader

A number is shown by its shortest decimal. Values from `0.0001` up to, but without,
`10 ^ 16` have all their digits written out and always a digit behind the point; the
others are written with one digit before the point and an exponent.
-/

namespace ScriptHints
namespace Number

/-- The digits of a coefficient without the zeros at its end. -/
def significantDigits (n : Nat) : List Char :=
  ((digits n).reverse.dropWhile (· = '0')).reverse

/-- Digits with the point behind the first `point` of them. -/
def positional (ds : List Char) (point : Int) : List Char :=
  if point ≤ 0 then
    ['0', '.'] ++ List.replicate (-point).toNat '0' ++ ds
  else if ds.length ≤ point.toNat then
    ds ++ List.replicate (point.toNat - ds.length) '0' ++ ['.', '0']
  else
    ds.take point.toNat ++ ['.'] ++ ds.drop point.toNat

def signedDigits (n : Int) : List Char :=
  if n < 0 then '-' :: digits n.natAbs else digits n.natAbs

/-- One digit before the point and the exponent that makes up for it. -/
def scientific (ds : List Char) (exponent : Int) : List Char :=
  let fraction := if ds.length ≤ 1 then [] else '.' :: ds.drop 1
  ds.take 1 ++ fraction ++ ['e'] ++ signedDigits exponent

def Decimal.shown (d : Decimal) : List Char :=
  let ds := significantDigits d.coefficient
  if -3 ≤ d.magnitude ∧ d.magnitude ≤ 16 then positional ds d.magnitude
  else scientific ds (d.magnitude - 1)

def Binary64.shown (x : Binary64) : String :=
  let sign := if x.isNegative then ['-'] else []
  if x.isInfinite then String.ofList (sign ++ ['i', 'n', 'f'])
  else if !x.isFinite then "NaN"
  else if x.magnitude = 0 then String.ofList (sign ++ ['0', '.', '0'])
  else String.ofList (sign ++ x.shortest.shown)

end Number
end ScriptHints

/-!
# Classes of characters

A class of characters is a list of ranges of code points, both ends included.
The tables of this folder are such classes; a character belongs to a class when
one of the ranges covers its code point.
-/

namespace ScriptHints
namespace Text

structure CharClass where
  ranges : List (Nat × Nat)

def CharClass.contains (k : CharClass) (c : Char) : Bool :=
  k.ranges.any fun range => decide (range.1 ≤ c.toNat) && decide (c.toNat ≤ range.2)

end Text
end ScriptHints

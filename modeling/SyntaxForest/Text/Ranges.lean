/-
  Sets of code points given by ranges.

  A property of characters is written down as a list of closed ranges of code points,
  in increasing order and with no two ranges touching, the way the character database
  publishes it.
-/

namespace SyntaxForest.Text

/-- A set of code points as a list of closed ranges `(first, last)`. -/
abbrev Ranges := List (Nat × Nat)

/-- Is the character's code point in one of the ranges? -/
def Ranges.has (ranges : Ranges) (c : Char) : Bool :=
  ranges.any fun (first, last) => first ≤ c.toNat && c.toNat ≤ last

end SyntaxForest.Text

/-!
# Sets of code points

A set of code points is written as its maximal ranges, in order, both ends included.
-/

namespace Raml.Text.Unicode

/-- Whether the code point of `c` lies in one of the ranges. -/
def inRanges (ranges : List (Nat × Nat)) (c : Char) : Bool :=
  ranges.any fun (first, last) => first ≤ c.toNat && c.toNat ≤ last

end Raml.Text.Unicode

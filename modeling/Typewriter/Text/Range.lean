/-!
# Ranges of characters

Properties of characters that come from a standard are given by ranges of code points.
-/

namespace Typewriter.Text

/-- Whether a character lies in one of some ranges, both ends included. -/
def inRanges (ranges : List (Nat × Nat)) (c : Char) : Bool :=
  ranges.any fun range => range.1 ≤ c.toNat && c.toNat ≤ range.2

end Typewriter.Text

/-!
# Sets of code points

A set of code points is kept as a table of closed ranges.
-/

namespace Stencil.Text

/-- Closed ranges of code points: the first and the last code point of each. -/
abbrev CodePoints := Array (Nat × Nat)

/-- Whether a character lies in one of the ranges. -/
def CodePoints.contains (table : CodePoints) (c : Char) : Bool :=
  table.any fun range => range.1 ≤ c.toNat && c.toNat ≤ range.2

end Stencil.Text

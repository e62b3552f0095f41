/-!
# Ranges of code points

Character properties of the Unicode standard are kept as ascending lists of closed ranges.
-/
namespace Reflection.Text

/-- Closed ranges of code points, in ascending order. -/
abbrev CodeRanges := List (Nat × Nat)

/-- A character belongs to the ranges when one of them spans its code point. -/
def CodeRanges.has (ranges : CodeRanges) (c : Char) : Bool :=
  ranges.any fun r => r.1 ≤ c.toNat && c.toNat ≤ r.2

end Reflection.Text

/-!
Sets of characters given as ascending lists of closed code point ranges.
-/

namespace SelectorPath.Text

/-- Whether a code point lies in one of the ranges. The ranges are in ascending order, so
the search ends at the first one that does not lie below the code point. -/
def inRanges (n : Nat) : List (Nat × Nat) → Bool
  | [] => false
  | (lo, hi) :: rest => if n ≤ hi then lo ≤ n else inRanges n rest

end SelectorPath.Text

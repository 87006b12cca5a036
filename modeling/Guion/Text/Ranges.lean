/-!
# Guion.Text.Ranges — character properties as tables

A character property is a list of inclusive ranges of code points in ascending order. The search
stops at the first range that begins above the code point, so the order is what makes it right.
-/

namespace Guion.Text

/-- Whether the code point `n` lies in one of the inclusive `ranges`, which ascend. -/
def inRanges : List (Nat × Nat) → Nat → Bool
  | [], _ => false
  | (lo, hi) :: ranges, n => decide (lo ≤ n) && (decide (n ≤ hi) || inRanges ranges n)

end Guion.Text

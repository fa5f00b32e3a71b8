/-!
# Character ranges

A set of code points as a sorted list of ranges, both ends included.
-/

namespace DebugExpr.Text

/-- Whether a code point lies in one of the ranges; the list is sorted, so the search stops
at the first range above it. -/
def inRanges : List (Nat × Nat) → Nat → Bool
  | [], _ => false
  | (lo, hi) :: rest, n => if n < lo then false else n ≤ hi || inRanges rest n

end DebugExpr.Text

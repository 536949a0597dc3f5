/-!
# Tables of ranges

A set of code points given as the increasing list of its maximal ranges.
-/

namespace NimMarkdown

/-- `n` lies in one of the increasing ranges; the search ends at the first range above `n`. -/
def inRanges : List (Nat × Nat) → Nat → Bool
  | [], _ => false
  | (low, high) :: rest, n => low ≤ n && (n ≤ high || inRanges rest n)

end NimMarkdown

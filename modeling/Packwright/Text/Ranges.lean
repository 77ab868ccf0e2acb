/-!
# Sets of characters given by ranges

A set of characters is a list of closed ranges of code points in ascending order. The tables of
character properties are such lists, so one membership test serves all of them.

`inRanges` looks a code point up, and stops early because the ranges are in order.
-/

namespace Packwright.Text

/-- Whether a code point lies in one of the ranges; the search stops at the first range that
starts beyond it. -/
def inRanges (code : Nat) : List (Nat × Nat) → Bool
  | [] => false
  | (lo, hi) :: rest => if code < lo then false else code ≤ hi || inRanges code rest

end Packwright.Text

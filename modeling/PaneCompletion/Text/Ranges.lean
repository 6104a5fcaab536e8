import PaneCompletion.Text.Basic

/-!
# Ranges of code points

A property of characters is held as the list of its ranges, lowest first and apart from each
other. `inRanges` stops at the first range that begins above the code point.
-/

namespace PaneCompletion.Text

/-- Whether a code point lies in one of the ranges, which are given lowest first. -/
def inRanges (n : Nat) : List (Nat × Nat) → Bool
  | [] => false
  | (low, high) :: rest => if n < low then false else n ≤ high || inRanges n rest

end PaneCompletion.Text

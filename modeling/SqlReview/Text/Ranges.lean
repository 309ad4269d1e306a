/-!
# Ranges of code points

A property of characters is a list of closed ranges of code points, in ascending order. `covers`
reads such a list; it stops at the first range that lies above the code point, so the lists have
to ascend.
-/

namespace SqlReview.Text

/-- Closed ranges of code points, ascending and apart from each other. -/
abbrev CodeRanges := List (Nat × Nat)

/-- Whether a code point lies in one of the ranges. -/
def CodeRanges.covers : CodeRanges → Nat → Bool
  | [], _ => false
  | (first, last) :: rest, n =>
    if n < first then false else n ≤ last || CodeRanges.covers rest n

/-- A code point below the first range is in none of them. -/
theorem CodeRanges.covers_of_lt {first last n : Nat} (rest : CodeRanges) (h : n < first) :
    CodeRanges.covers ((first, last) :: rest) n = false := by
  simp [CodeRanges.covers, h]

end SqlReview.Text

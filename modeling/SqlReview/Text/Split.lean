/-!
# Pieces between separators

A text cut at every occurrence of a character. There is one piece more than there are separators.
-/

namespace SqlReview.Text

/-- The pieces of a text between the separators. -/
def splitAt (separator : Char) : List Char → List (List Char)
  | [] => [[]]
  | c :: s =>
    if c = separator then [] :: splitAt separator s
    else match splitAt separator s with
      | [] => [[c]]
      | piece :: pieces => (c :: piece) :: pieces

/-- There is always a piece, if only an empty one. -/
theorem splitAt_ne_nil (separator : Char) (s : List Char) : splitAt separator s ≠ [] := by
  cases s with
  | nil => simp [splitAt]
  | cons c s => simp only [splitAt]; split <;> (try split) <;> simp

/-- The pieces on the two sides of a separator are those of the two texts apart. -/
theorem splitAt_append (separator : Char) (s t : List Char) :
    splitAt separator (s ++ separator :: t) = splitAt separator s ++ splitAt separator t := by
  induction s with
  | nil => simp [splitAt]
  | cons c s ih =>
    by_cases h : c = separator
    · simp [splitAt, h, ih]
    · simp only [List.cons_append, splitAt, if_neg h, ih]
      cases hs : splitAt separator s with
      | nil => exact absurd hs (splitAt_ne_nil separator s)
      | cons piece pieces => rfl

end SqlReview.Text

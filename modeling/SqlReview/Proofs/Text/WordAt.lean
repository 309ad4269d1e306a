import SqlReview.Text.Ascii

/-!
# Words at offsets

A keyword stands at an offset of a text as a whole word when the characters on its two sides cannot
belong to a word with it. Which characters these are is a choice: scans ask for name characters
and searches for word characters.
-/

namespace SqlReview.Text

/-- Whether a keyword in any case stands at an offset of a text, with no character of the class
before it or behind it. -/
def wordAt (cls : Char → Bool) (keyword : String) (s : List Char) (n : Nat) : Bool :=
  let rest := s.drop n
  sameText (rest.take keyword.length) keyword.toList &&
    !(s.take n).getLast?.any cls && !(rest.drop keyword.length).head?.any cls

variable {cls : Char → Bool} {keyword : String}

/-- Texts that are equal up to letter case are equally long. -/
theorem length_eq_of_sameText {s t : List Char} (h : sameText s t = true) :
    s.length = t.length := by
  rw [← length_lowerAscii s, sameText_iff.mp h, length_lowerAscii]

/-- Behind a first part a keyword stands where the second part begins with it. -/
theorem wordAt_append {u w v : List Char} (hw : sameText w keyword.toList = true) :
    wordAt cls keyword (u ++ (w ++ v)) u.length =
      (!u.getLast?.any cls && !v.head?.any cls) := by
  have hlength : keyword.length = w.length := by
    rw [length_eq_of_sameText hw, String.length_toList]
  simp [wordAt, hlength, hw]

/-- What stands at an offset, and what is on its two sides. -/
theorem exists_of_wordAt (hne : keyword.toList ≠ []) {s : List Char} {n : Nat}
    (h : wordAt cls keyword s n = true) :
    ∃ u w v, s = u ++ (w ++ v) ∧ u.length = n ∧ sameText w keyword.toList = true ∧
      u.getLast?.any cls = false ∧ v.head?.any cls = false := by
  simp only [wordAt, Bool.and_eq_true, Bool.not_eq_true'] at h
  obtain ⟨⟨hw, hu⟩, hv⟩ := h
  refine ⟨s.take n, (s.drop n).take keyword.length, (s.drop n).drop keyword.length, ?_, ?_, hw, hu,
    hv⟩
  · rw [List.take_append_drop, List.take_append_drop]
  · rw [List.length_take, Nat.min_eq_left]
    -- beyond the end nothing is left that could be the keyword
    refine Nat.le_of_not_lt fun hlt => hne ?_
    rw [List.drop_eq_nil_of_le (Nat.le_of_lt hlt), List.take_nil] at hw
    exact List.eq_nil_of_length_eq_zero (length_eq_of_sameText hw).symm

end SqlReview.Text

import Mathlib.Data.List.DropRight
import SqlReview.Text.Blank

/-!
# Trimmed texts

A text is its trimmed form between blanks, and trimming it once more changes nothing.
-/

namespace SqlReview.Text

/-- The blanks that a text begins with stand before the rest of it. -/
theorem exists_trimStart (s : List Char) : ∃ w, isBlankText w = true ∧ s = w ++ trimStart s :=
  ⟨s.takeWhile isBlank, List.all_takeWhile, List.takeWhile_append_dropWhile.symm⟩

/-- The blanks that a text ends with stand after the rest of it. -/
theorem exists_trimEnd (s : List Char) : ∃ w, isBlankText w = true ∧ s = trimEnd s ++ w := by
  refine ⟨s.rtakeWhile isBlank, ?_, List.rdropWhile_append_rtakeWhile.symm⟩
  rw [isBlankText, List.all_eq_true]
  intro c hc
  exact List.mem_rtakeWhile_imp hc

/-- A text is its trimmed form between blanks. -/
theorem exists_trim (s : List Char) :
    ∃ v w, isBlankText v = true ∧ isBlankText w = true ∧ s = v ++ trim s ++ w := by
  obtain ⟨v, hv, hs⟩ := exists_trimStart s
  obtain ⟨w, hw, ht⟩ := exists_trimEnd (trimStart s)
  refine ⟨v, w, hv, hw, ?_⟩
  rw [List.append_assoc, trim, ← ht, ← hs]

/-- Only a blank text trims to nothing. -/
theorem trim_eq_nil_iff {s : List Char} : trim s = [] ↔ isBlankText s = true := by
  constructor
  · intro h
    obtain ⟨v, w, hv, hw, hs⟩ := exists_trim s
    rw [h, List.append_nil] at hs
    rw [hs, isBlankText, List.all_append, Bool.and_eq_true_iff]
    exact ⟨hv, hw⟩
  · intro h
    rw [trim, trimStart_eq_nil_iff.mpr h]
    rfl

/-- After a text that is not blank the blanks at the start are those of the text. -/
theorem trimStart_append_of_ne_nil {s : List Char} (h : trimStart s ≠ []) (z : List Char) :
    trimStart (s ++ z) = trimStart s ++ z := by
  have hempty : (s.dropWhile isBlank).isEmpty = false := by
    rw [List.isEmpty_eq_false_iff]
    exact h
  rw [trimStart, List.dropWhile_append, hempty]
  rfl

/-- A trimmed text begins with no blank. -/
theorem trimStart_trim (s : List Char) : trimStart (trim s) = trim s := by
  have hprefix : trim s <+: trimStart s := List.rdropWhile_prefix isBlank _
  have hhead := List.head?_dropWhile_not isBlank s
  cases ht : trim s with
  | nil => rfl
  | cons c t =>
    rw [ht] at hprefix
    obtain ⟨u, hu⟩ := hprefix
    have hstart : s.dropWhile isBlank = c :: (t ++ u) := hu.symm
    rw [hstart] at hhead
    exact List.dropWhile_cons_of_neg (by simpa using hhead)

/-- A trimmed text is trimmed once and for all. -/
theorem trim_trim (s : List Char) : trim (trim s) = trim s := by
  rw [trim, trimStart_trim]
  exact List.rdropWhile_idempotent isBlank (trimStart s)

end SqlReview.Text

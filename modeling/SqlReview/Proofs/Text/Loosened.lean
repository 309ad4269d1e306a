import SqlReview.Proofs.Text.Tidy

/-!
# Spaces before parentheses

A text is loosened by a space before an opening parenthesis. What a text begins and ends with, and
its runs of characters that a space and a parenthesis end alike, are those of the loosened text.
-/

namespace SqlReview.Text

/-- Whether the second text is the first one with a space put before some of its opening
parentheses. -/
inductive Loosened : List Char → List Char → Prop
  | nil : Loosened [] []
  | cons (c : Char) {s t : List Char} (h : Loosened s t) : Loosened (c :: s) (c :: t)
  | space {s t : List Char} (h : Loosened s t) : Loosened ('(' :: s) (' ' :: '(' :: t)

/-- A text that begins with no blank stays as it is. -/
theorem trimStart_of_startsBlank {s : List Char} (h : startsBlank s = false) :
    trimStart s = s :=
  (span_of_head? (w := []) (by simp) h).2

namespace Loosened

variable {s t : List Char}

/-- A text is a loosened text of itself. -/
theorem refl (s : List Char) : Loosened s s := by
  induction s with
  | nil => exact .nil
  | cons c s ih => exact .cons c ih

/-- What stands before a text may stand before the loosened text. -/
theorem append_left (p : List Char) (h : Loosened s t) : Loosened (p ++ s) (p ++ t) := by
  induction p with
  | nil => exact h
  | cons c p ih => exact .cons c ih

/-- One space before a parenthesis. -/
theorem insert (p q : List Char) : Loosened (p ++ '(' :: q) (p ++ ' ' :: '(' :: q) :=
  append_left p (.space (refl q))

/-- A parenthesis is no blank. -/
theorem startsBlank_opening (s : List Char) : startsBlank ('(' :: s) = false :=
  (by decide : isBlank '(' = false)

/-- A loosened text is empty when the text is. -/
theorem eq_nil_iff (h : Loosened s t) : s = [] ↔ t = [] := by
  cases h <;> simp

/-- A text without parentheses is not loosened. -/
theorem eq_of_not_mem (h : Loosened s t) (hs : '(' ∉ s ∨ '(' ∉ t) : s = t := by
  induction h with
  | nil => rfl
  | cons c h ih =>
    have htail := ih (hs.imp (fun hs h => hs (List.mem_cons_of_mem c h))
      fun hs h => hs (List.mem_cons_of_mem c h))
    rw [htail]
  | space h ih =>
    rcases hs with hs | hs
    · exact absurd (List.mem_cons_self ..) hs
    · exact absurd (List.mem_cons_of_mem ' ' (List.mem_cons_self ..)) hs

/-- The texts begin alike as far as a space and a parenthesis are alike. -/
theorem head?_any (h : Loosened s t) {cls : Char → Bool} (hcls : cls '(' = cls ' ') :
    s.head?.any cls = t.head?.any cls := by
  cases h with
  | nil => rfl
  | cons c h => rfl
  | space h => exact hcls

/-- Runs of characters of a class to which a space belongs when a parenthesis does. -/
theorem span (h : Loosened s t) {cls : Char → Bool} (hcls : cls '(' = cls ' ') :
    Loosened (s.takeWhile cls) (t.takeWhile cls) ∧
      Loosened (s.dropWhile cls) (t.dropWhile cls) := by
  induction h with
  | nil => exact ⟨.nil, .nil⟩
  | @cons c s t h ih =>
    by_cases hc : cls c = true
    · rw [List.takeWhile_cons_of_pos hc, List.takeWhile_cons_of_pos hc,
        List.dropWhile_cons_of_pos hc, List.dropWhile_cons_of_pos hc]
      exact ⟨.cons c ih.1, ih.2⟩
    · rw [List.takeWhile_cons_of_neg hc, List.takeWhile_cons_of_neg hc,
        List.dropWhile_cons_of_neg hc, List.dropWhile_cons_of_neg hc]
      exact ⟨.nil, .cons c h⟩
  | @space s t h ih =>
    by_cases hopen : cls '(' = true
    · have hspace : cls ' ' = true := by rw [← hcls, hopen]
      rw [List.takeWhile_cons_of_pos hopen, List.takeWhile_cons_of_pos hspace,
        List.takeWhile_cons_of_pos hopen, List.dropWhile_cons_of_pos hopen,
        List.dropWhile_cons_of_pos hspace, List.dropWhile_cons_of_pos hopen]
      exact ⟨.space ih.1, ih.2⟩
    · have hspace : ¬ cls ' ' = true := by rw [← hcls]; exact hopen
      rw [List.takeWhile_cons_of_neg hopen, List.takeWhile_cons_of_neg hspace,
        List.dropWhile_cons_of_neg hopen, List.dropWhile_cons_of_neg hspace]
      exact ⟨.nil, .space h⟩

/-- A run that a space and a parenthesis end is not loosened. -/
theorem takeWhile_eq (h : Loosened s t) {cls : Char → Bool} (hopen : cls '(' = false)
    (hspace : cls ' ' = false) : s.takeWhile cls = t.takeWhile cls := by
  apply (h.span (hopen.trans hspace.symm)).1.eq_of_not_mem
  apply Or.inl
  intro hmem
  rw [List.all_eq_true.mp List.all_takeWhile _ hmem] at hopen
  exact Bool.false_ne_true hopen.symm

/-! ### Blanks at the ends -/

/-- The texts begin with the same blanks, a space before a parenthesis apart. -/
theorem exists_blanks (h : Loosened s t) : ∃ v x, isBlankText v = true ∧ s = v ++ x ∧
    startsBlank x = false ∧ ((∃ y, t = v ++ y ∧ startsBlank y = false ∧ Loosened x y) ∨
      ∃ x' y', x = '(' :: x' ∧ t = v ++ ' ' :: '(' :: y' ∧ Loosened x' y') := by
  induction h with
  | nil => exact ⟨[], [], rfl, rfl, rfl, .inl ⟨[], rfl, rfl, .nil⟩⟩
  | @cons c s t h ih =>
    by_cases hc : isBlank c = true
    · obtain ⟨v, x, hv, rfl, hx, ht⟩ := ih
      refine ⟨c :: v, x, by simpa [isBlankText, hc] using hv, rfl, hx, ?_⟩
      rcases ht with ⟨y, rfl, hy, hxy⟩ | ⟨x', y', hx', rfl, hxy⟩
      · exact .inl ⟨y, rfl, hy, hxy⟩
      · exact .inr ⟨x', y', hx', rfl, hxy⟩
    · have hsolid : isBlank c = false := by simpa using hc
      exact ⟨[], c :: s, rfl, rfl, hsolid, .inl ⟨c :: t, rfl, hsolid, .cons c h⟩⟩
  | @space s t h ih => exact ⟨[], '(' :: s, rfl, rfl, rfl, .inr ⟨s, t, rfl, rfl, h⟩⟩

/-- A loosened text without the blanks that it begins with. No space is left where it begins. -/
theorem trimStart (h : Loosened s t) : Loosened (Text.trimStart s) (Text.trimStart t) := by
  obtain ⟨v, x, hv, rfl, hx, ⟨y, rfl, hy, hxy⟩ | ⟨x', y', rfl, rfl, hxy⟩⟩ := h.exists_blanks
  · rw [trimStart_append hv, trimStart_append hv, trimStart_of_startsBlank hx,
      trimStart_of_startsBlank hy]
    exact hxy
  · rw [trimStart_append hv, trimStart_append hv, trimStart_of_startsBlank hx]
    exact .cons '(' hxy

/-- Behind their blanks the texts begin with the same character. -/
theorem head?_trimStart (h : Loosened s t) :
    (Text.trimStart s).head? = (Text.trimStart t).head? := by
  obtain ⟨v, x, hv, rfl, hx, ⟨y, rfl, hy, hxy⟩ | ⟨x', y', rfl, rfl, hxy⟩⟩ := h.exists_blanks
  · rw [trimStart_append hv, trimStart_append hv, trimStart_of_startsBlank hx,
      trimStart_of_startsBlank hy]
    cases hxy with
    | nil => rfl
    | cons c h => rfl
    | @space s t h => exact absurd (show isBlank ' ' = false from hy) (by decide)
  · rw [trimStart_append hv, trimStart_append hv, trimStart_of_startsBlank hx]
    rfl

private theorem trimEnd_cons (c : Char) (s : List Char) :
    (Text.trimEnd s = [] ∧ isBlank c = true ∧ Text.trimEnd (c :: s) = []) ∨
      (¬(Text.trimEnd s = [] ∧ isBlank c = true) ∧
        Text.trimEnd (c :: s) = c :: Text.trimEnd s) := by
  simp only [Text.trimEnd, List.reverse_cons, List.dropWhile_append, List.reverse_eq_nil_iff]
  by_cases hs : s.reverse.dropWhile isBlank = []
  · by_cases hc : isBlank c = true
    · exact .inl (by simp [hs, hc])
    · exact .inr (by simp [hs, hc])
  · exact .inr (by simp [hs])

/-- A loosened text without the blanks that it ends with. -/
theorem trimEnd (h : Loosened s t) : Loosened (Text.trimEnd s) (Text.trimEnd t) := by
  induction h with
  | nil => exact .nil
  | @cons c s t h ih =>
    rcases trimEnd_cons c s with ⟨hs, hc, heq⟩ | ⟨hs, heq⟩
    · rcases trimEnd_cons c t with ⟨-, -, heq'⟩ | ⟨ht, -⟩
      · rw [heq, heq']
        exact .nil
      · exact absurd ⟨ih.eq_nil_iff.mp hs, hc⟩ ht
    · rcases trimEnd_cons c t with ⟨ht, hc, -⟩ | ⟨-, heq'⟩
      · exact absurd ⟨ih.eq_nil_iff.mpr ht, hc⟩ hs
      · rw [heq, heq']
        exact .cons c ih
  | @space s t h ih =>
    have hopen : ∀ u, Text.trimEnd ('(' :: u) = '(' :: Text.trimEnd u := by
      intro u
      rcases trimEnd_cons '(' u with ⟨-, hblank, -⟩ | ⟨-, heq⟩
      · exact absurd hblank (by decide)
      · exact heq
    rcases trimEnd_cons ' ' ('(' :: t) with ⟨hnil, -, -⟩ | ⟨-, heq⟩
    · rw [hopen] at hnil
      exact absurd hnil (List.cons_ne_nil _ _)
    · rw [heq, hopen, hopen]
      exact .space ih

/-- A trimmed loosened text is the trimmed text, loosened. -/
theorem trim (h : Loosened s t) : Loosened (Text.trim s) (Text.trim t) :=
  h.trimStart.trimEnd

end Loosened

end SqlReview.Text

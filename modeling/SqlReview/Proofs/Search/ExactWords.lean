import SqlReview.Proofs.Search.Mark
import SqlReview.Proofs.Search.Word

/-!
# Words as they stand

Searches for whole words as they stand, with gaps between them. A character that belongs to no word
and is no blank stands between their occurrences, and so does a blank where only one word is looked
for. Several words are found only where the first of them is.
-/

namespace SqlReview.Search

open SqlReview.Text

namespace Phrase

/-- Whether there are words to look for, each of which has characters, and only those of words. -/
def AreWords (words : List String) : Prop :=
  words ≠ [] ∧ ∀ w ∈ words, w.toList ≠ [] ∧ ∀ c ∈ w.toList, isWordChar c = true

variable {words : List String} {word : String} {m : Char}

/-- Words are keywords. -/
theorem AreWords.areKeywords (h : AreWords words) : AreKeywords words := by
  refine ⟨h.1, fun w hw => ⟨(h.2 w hw).1, fun c hc => ?_⟩⟩
  rw [Bool.eq_false_iff]
  intro hblank
  have hword := (h.2 w hw).2 c hc
  rw [(solid_isWordChar .none).blank c hblank] at hword
  exact Bool.noConfusion hword

/-- Words are sought as they stand. -/
theorem AreWords.sought (h : AreWords words) : (exactWords words).Sought .none :=
  sought_exactWords h.areKeywords

/-- Each of the words by itself. -/
theorem AreWords.of_mem (h : AreWords words) (hw : word ∈ words) : AreWords [word] := by
  refine ⟨List.cons_ne_nil _ _, fun w hmem => ?_⟩
  obtain rfl := List.mem_singleton.mp hmem
  exact h.2 w hw

/-- The first of several words is a word. -/
theorem AreWords.first (h : AreWords (word :: words)) : AreWords [word] :=
  h.of_mem (List.mem_cons_self ..)

/-- A word has characters, all of which are word characters. -/
theorem AreWords.chars (h : AreWords [word]) :
    word.toList ≠ [] ∧ ∀ c ∈ word.toList, isWordChar c = true :=
  h.2 word (List.mem_singleton_self word)

/-! ### Characters between words -/

private theorem avoids_exactly (h : AreWords [word]) (hm : isWordChar m = false) :
    (exactly word).avoids m = true := by
  obtain ⟨hne, hword⟩ := h.chars
  refine avoids_all (by simpa using hne) fun a ha => ?_
  obtain ⟨k, hk, rfl⟩ := List.mem_map.mp ha
  rw [avoids, Bool.not_eq_true', beq_eq_false_iff_ne]
  rintro rfl
  rw [hword m hk] at hm
  exact Bool.noConfusion hm

/-- What is no blank and belongs to no word stands between words. -/
theorem AreWords.avoids (h : AreWords words) (hm : isWordChar m = false)
    (hblank : isBlank m = false) : (exactWords words).avoids m = true := by
  have hgap : gap.avoids m = true := by
    rw [gap, atLeastOne, Phrase.avoids, Phrase.avoids, Phrase.avoids, hblank]
    rfl
  refine avoids_all (by simp) fun a ha => ?_
  simp only [List.cons_append, List.mem_cons, List.mem_append, List.not_mem_nil, or_false] at ha
  rcases ha with rfl | ha | rfl
  · rfl
  · rcases mem_intersperse ha with rfl | ha
    · exact hgap
    · obtain ⟨w, hw, rfl⟩ := List.mem_map.mp ha
      exact avoids_exactly (h.of_mem hw) hm
  · rfl

private theorem AreWords.avoids_one (h : AreWords [word]) (hm : isWordChar m = false) :
    (exactWords [word]).avoids m = true := by
  refine avoids_all (List.cons_ne_nil _ _) fun a ha => ?_
  simp only [List.map_cons, List.map_nil, List.intersperse_singleton, List.cons_append,
    List.nil_append, List.mem_cons, List.not_mem_nil, or_false] at ha
  rcases ha with rfl | rfl | rfl
  · rfl
  · exact avoids_exactly h hm
  · rfl

private theorem AreWords.read_boundary_of_gap (h : AreWords [word]) {p q r : Place}
    (hq : (exactly word).read p = some q) (hr : gap.read q = some r) :
    boundary.read q = some q := by
  obtain ⟨hne, hword⟩ := h.chars
  have hlast := hword _ (List.getLast_mem hne)
  rw [read_gap] at hr
  split at hr
  · next hstart =>
    obtain ⟨c, s, hrest, hc⟩ := exists_of_startsBlank hstart
    rw [read_boundary, Place.atBoundary, (read_exactly_iff.mp hq).before,
      List.getLast?_eq_some_getLast hne, hrest]
    simp [hlast, (solid_isWordChar .none).blank c hc]
  · exact absurd hr (by simp)

/-- Several words are read only where the first of them is read as a whole word. -/
theorem AreWords.read_first (h : AreWords (word :: words)) {p : Place}
    (hnone : (exactWords [word]).read p = none) : (exactWords (word :: words)).read p = none := by
  cases words with
  | nil => exact hnone
  | cons next words =>
    rw [Option.eq_none_iff_forall_ne_some]
    intro q hq
    change (all (boundary :: exactly word :: gap :: _)).read p = some q at hq
    rw [read_all_cons, Option.bind_eq_some_iff] at hq
    obtain ⟨r, hr, hq⟩ := hq
    rw [read_all_cons, Option.bind_eq_some_iff] at hq
    obtain ⟨r', hr', hq⟩ := hq
    rw [read_all_cons, Option.bind_eq_some_iff] at hq
    obtain ⟨r'', hgap, -⟩ := hq
    have hread : (exactWords [word]).read p = some r' := by
      change (all [boundary, exactly word, boundary]).read p = some r'
      rw [read_all_cons, hr, Option.bind_some, read_all_cons, hr', Option.bind_some]
      exact h.first.read_boundary_of_gap hr' hgap
    rw [hnone] at hread
    exact absurd hread (by simp)

end Phrase

open Phrase

variable {word : String} {words : List String} {s t v : List Char} {m : Char}

/-- Where the first of several words does not stand, they do not stand. -/
theorem holds_exactWords_eq_false (h : AreWords (word :: words))
    (hs : holds (.exactWords [word]) s = false) :
    holds (.exactWords (word :: words)) s = false := by
  have hnone := (remainders_eq_nil_iff _ s).mpr hs
  rw [remainders, List.map_eq_nil_iff] at hnone
  rw [← remainders_eq_nil_iff, remainders, List.map_eq_nil_iff]
  exact occurrencesFrom_eq_nil h.first.sought.moves
    (fun _ => h.read_first) hnone

/-- The empty text holds no phrase. -/
theorem holds_nil (a : Phrase) : holds a [] = false := by
  rw [holds, find?, occurrences, occurrencesFrom_nil]
  rfl

/-- A word stands in a text with a character outside of words when it stands on one of its sides. -/
theorem holds_word_mark (h : AreWords [word]) (hm : isWordChar m = false) (s t : List Char) :
    holds (.exactWords [word]) (s ++ m :: t) =
      (holds (.exactWords [word]) s || holds (.exactWords [word]) t) := by
  simp only [holds_eq_isSome_remainders]
  rw [remainders_mark hm (h.avoids_one hm) h.sought.moves]
  cases remainders (exactWords [word]) s <;> simp

/-- A word stands on one of the sides of a gap. -/
theorem holds_word_gap (h : AreWords [word]) (hv : isBlankText v = true) (hne : v ≠ [])
    (s t : List Char) : holds (.exactWords [word]) (s ++ (v ++ t)) =
      (holds (.exactWords [word]) s || holds (.exactWords [word]) t) := by
  obtain ⟨c, v, rfl⟩ := List.exists_cons_of_ne_nil hne
  obtain ⟨hc, hv⟩ : isBlank c = true ∧ isBlankText v = true := by simpa [isBlankText] using hv
  rw [List.cons_append, holds_word_mark h ((solid_isWordChar .none).blank c hc),
    holds_blanks_append h.sought.refuses hv]

/-- Blanks at the end of a text hold no word. -/
theorem holds_word_blanks (h : AreWords [word]) (hv : isBlankText v = true) (s : List Char) :
    holds (.exactWords [word]) (s ++ v) = holds (.exactWords [word]) s := by
  by_cases hne : v = []
  · rw [hne, List.append_nil]
  · have hgap := holds_word_gap h hv hne s []
    rwa [List.append_nil, holds_nil, Bool.or_false] at hgap

end SqlReview.Search

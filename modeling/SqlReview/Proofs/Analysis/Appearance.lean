import SqlReview.Analysis
import SqlReview.Proofs.Lexical.Case
import SqlReview.Proofs.Lexical.Layout
import SqlReview.Proofs.Query.Table
import SqlReview.Proofs.Rule.Wildcard

/-!
# The appearance of a statement

The analysis of a statement depends neither on the case of its ASCII letters nor, except for the
rule that counts the characters of a list, on the layout between two of its tokens. The metrics are
those of a tidy text. The rules look at texts in upper case, and of the layout, of which blanks are
left when comments are removed, they see no more than that it is there.
-/

namespace SqlReview

open SqlReview.Text SqlReview.Lexical SqlReview.Query SqlReview.Rule

/-! ### Letter case -/

variable {s t : List Char}

private theorem sameText_removeComments (h : sameText s t = true) :
    sameText (removeComments s) (removeComments t) = true := by
  rw [sameText_iff] at h ⊢
  rw [← removeComments_lowerAscii, h, removeComments_lowerAscii]

private theorem sameText_blankLiterals (h : sameText s t = true) :
    sameText (blankLiterals s) (blankLiterals t) = true := by
  rw [sameText_iff] at h ⊢
  rw [← blankLiterals_lowerAscii, h, blankLiterals_lowerAscii]

private theorem sameText_blankStrings (h : sameText s t = true) :
    sameText (blankStrings s) (blankStrings t) = true := by
  rw [sameText_iff] at h ⊢
  rw [← blankStrings_lowerAscii, h, blankStrings_lowerAscii]

/-- The metrics of a statement do not depend on the case of its letters. -/
theorem metricsOf_eq_of_sameText (h : sameText s t = true) : metricsOf s = metricsOf t := by
  have hplain := sameText_removeComments h
  exact metricsOf_eq_of_tidy_eq .lower (tidy_lower_congr (sameText_blankLiterals hplain))
    (tidy_lower_congr (sameText_blankStrings hplain))

/-- The rules are shown the same subject whatever the case of letters. -/
theorem subject_eq_of_sameText (h : sameText s t = true) (m : Metrics) :
    Subject.of s m = Subject.of t m := by
  have hplain := sameText_removeComments h
  rw [Subject.of, Subject.of, upperAscii_eq_of_sameText hplain,
    upperAscii_eq_of_sameText (sameText_blankLiterals hplain)]

/-- The analysis of a statement that is not blank. -/
theorem analyze_of_not_blank (h : isBlankText s = false) :
    analyze s =
      { complexity := { metrics := metricsOf s }
        recommendations := evaluate (enabled {}) (Subject.of s (metricsOf s)) } := by
  rw [analyze, examine, if_neg (by simp [h])]
  rfl

/-- A blank statement has nothing to be said of. -/
theorem analyze_of_blank (h : isBlankText s = true) : analyze s = {} := by
  rw [analyze, examine, if_pos h]

/-- The analysis of a statement does not depend on the case of its ASCII letters, be they in
keywords, names, literals or comments. -/
theorem analyze_ignores_letter_case :
    (∀ s t : List Char, sameText s t = true → analyze s = analyze t) ∧
      ∀ s : List Char, analyze s = analyze (upperAscii s) := by
  have hsame : ∀ s t : List Char, sameText s t = true → analyze s = analyze t := by
    intro s t h
    have hblank := isBlankText_eq_of_sameText h
    by_cases hs : isBlankText s = true
    · rw [analyze_of_blank hs, analyze_of_blank (by rw [← hblank, hs])]
    · have hs' : isBlankText s = false := by simpa using hs
      rw [analyze_of_not_blank hs', analyze_of_not_blank (by rw [← hblank, hs']),
        metricsOf_eq_of_sameText h, subject_eq_of_sameText h]
  refine ⟨hsame, ?_⟩
  intro s
  exact hsame s (upperAscii s) (sameText_upperAscii s)

/-- A statement with keywords, a name, a literal and a comment in two spellings. -/
theorem analyze_of_two_spellings :
    sameText "Select * from T where a like '%x' -- All".toList
        "SELECT * FROM t WHERE a LIKE '%X' -- ALL".toList = true ∧
      analyze "Select * from T where a like '%x' -- All".toList =
        analyze "SELECT * FROM t WHERE a LIKE '%X' -- ALL".toList := by
  have h : sameText "Select * from T where a like '%x' -- All".toList
      "SELECT * FROM t WHERE a LIKE '%X' -- ALL".toList = true := by decide
  exact ⟨h, analyze_ignores_letter_case.1 _ _ h⟩

/-! ### Layout -/

/-- The text before and the text after a layout, as the rules are shown them. -/
def layoutFrame (p q : List Char) : Frame where
  blankedBefore := upperAscii (blankLiterals (removeComments p))
  blankedAfter := upperAscii (blankLiterals (removeComments q))
  before := upperAscii (removeComments p)
  after := upperAscii (removeComments q)
  length_before := by
    rw [byteLength_upperAscii, byteLength_upperAscii]
    exact (byteLength_blankFrom _ none _).symm
  length_after := by
    rw [byteLength_upperAscii, byteLength_upperAscii]
    exact (byteLength_blankFrom _ none _).symm

variable {p q r w : List Char}

/-- Literals of a statement are blanked before and after a layout, each on its own. -/
theorem blankLiterals_layout (hp : Region.code.after p = .code) (hw : isBlankText w = true)
    (h : removeComments (p ++ r ++ q) = removeComments p ++ w ++ removeComments q) :
    blankLiterals (removeComments (p ++ r ++ q)) =
      blankLiterals (removeComments p) ++ w ++ blankLiterals (removeComments q) := by
  rw [h]
  exact blankFrom_append _ hp hw _

private theorem blankStrings_layout (hp : Region.code.after p = .code) (hw : isBlankText w = true)
    (h : removeComments (p ++ r ++ q) = removeComments p ++ w ++ removeComments q) :
    blankStrings (removeComments (p ++ r ++ q)) =
      blankStrings (removeComments p) ++ w ++ blankStrings (removeComments q) := by
  rw [h]
  exact blankFrom_append _ hp hw _

/-- The rules are shown the frame of a layout with a run of blanks in it. -/
theorem subject_layout (hp : Region.code.after p = .code) (hw : isBlankText w = true)
    (h : removeComments (p ++ r ++ q) = removeComments p ++ w ++ removeComments q) (m : Metrics) :
    Subject.of (p ++ r ++ q) m = (layoutFrame p q).subject m (upperAscii w) := by
  have happend : ∀ a b c : List Char,
      upperAscii (a ++ b ++ c) = upperAscii a ++ (upperAscii b ++ upperAscii c) := by
    intro a b c
    rw [upperAscii, List.map_append, List.map_append, List.append_assoc]
    rfl
  rw [Subject.of, blankLiterals_layout hp hw h, h, happend, happend]
  rfl

/-- The analysis of a statement is the same whatever the layout between two of its tokens, lengths
of lists apart. -/
theorem analyze_ignores_layout (p q r s : List Char) (hp : Region.code.after p = .code)
    (hpq : isBlankText (p ++ q) = false) (hr : LayoutRun r) (hs : LayoutRun s) :
    (analyze (p ++ r ++ q)).complexity.metrics = (analyze (p ++ s ++ q)).complexity.metrics ∧
      (analyze (p ++ r ++ q)).complexity.score = (analyze (p ++ s ++ q)).complexity.score ∧
      (analyze (p ++ r ++ q)).complexity.level = (analyze (p ++ s ++ q)).complexity.level ∧
      without ["large-in-list"] (analyze (p ++ r ++ q)).recommendations =
        without ["large-in-list"] (analyze (p ++ s ++ q)).recommendations := by
  obtain ⟨v, hv, hbv, hremove⟩ := hr.removeComments_append
  obtain ⟨w, hw, hbw, hremove'⟩ := hs.removeComments_append
  have hplain := hremove p q hp
  have hplain' := hremove' p q hp
  have hblank : ∀ u, isBlankText (p ++ u ++ q) = false := by
    intro u
    rw [isBlankText, List.all_append, Bool.and_eq_false_iff] at hpq
    rw [isBlankText, List.all_append, List.all_append]
    rcases hpq with h | h
    · rw [h, Bool.false_and, Bool.false_and]
    · rw [h, Bool.and_false]
  have hmetrics : metricsOf (p ++ r ++ q) = metricsOf (p ++ s ++ q) := by
    apply metricsOf_eq_of_tidy_eq .none
    · rw [blankLiterals_layout hp hbv hplain, blankLiterals_layout hp hbw hplain']
      exact tidy_blanks_congr .none hv hw hbv hbw _ _
    · rw [blankStrings_layout hp hbv hplain, blankStrings_layout hp hbw hplain']
      exact tidy_blanks_congr .none hv hw hbv hbw _ _
  have hrules : ∀ k ∈ catalogue, k.entry.id ∉ ["large-in-list"] →
      k.check (Subject.of (p ++ r ++ q) (metricsOf (p ++ r ++ q))) =
        k.check (Subject.of (p ++ s ++ q) (metricsOf (p ++ s ++ q))) := by
    intro k hk hid
    rw [hmetrics, subject_layout hp hbv hplain, subject_layout hp hbw hplain']
    apply check_eq_of_blanks (layoutFrame p q) _ hk (by simpa using hid)
    · simpa [upperAscii] using hv
    · simpa [upperAscii] using hw
    · rw [← isBlankText_eq_of_sameText (sameText_upperAscii v), hbv]
    · rw [← isBlankText_eq_of_sameText (sameText_upperAscii w), hbw]
  rw [analyze_of_not_blank (hblank r), analyze_of_not_blank (hblank s)]
  simp only [Complexity.score, Complexity.level, hmetrics, true_and]
  rw [hmetrics] at hrules
  exact without_evaluate_congr {} hrules

/-- Comments before a pattern are no more than a tab there. -/
theorem analyze_comments_before_pattern :
    let p := "SELECT a FROM t WHERE a LIKE".toList
    let q := "'%x'".toList
    let r := " /* b */-- c\n".toList
    let s := "\t".toList
    (Region.code.after p = .code ∧ isBlankText (p ++ q) = false ∧ LayoutRun r ∧ LayoutRun s) ∧
      (analyze (p ++ r ++ q)).complexity.metrics = (analyze (p ++ s ++ q)).complexity.metrics ∧
      (analyze (p ++ r ++ q)).complexity.score = (analyze (p ++ s ++ q)).complexity.score ∧
      (analyze (p ++ r ++ q)).complexity.level = (analyze (p ++ s ++ q)).complexity.level ∧
      without ["large-in-list"] (analyze (p ++ r ++ q)).recommendations =
        without ["large-in-list"] (analyze (p ++ s ++ q)).recommendations := by
  intro p q r s
  have hp : Region.code.after p = .code := by decide
  have hpq : isBlankText (p ++ q) = false := by decide
  have hblock : ¬ ['*', '/'] <:+: " b ".toList := by decide
  have hline : '\n' ∉ " c".toList := by decide
  have hr : LayoutRun r := ⟨rfl, .blank rfl (.blockComment hblock (.lineComment hline .nil))⟩
  have hs : LayoutRun s := ⟨rfl, .blank rfl .nil⟩
  exact ⟨⟨hp, hpq, hr, hs⟩, analyze_ignores_layout p q r s hp hpq hr hs⟩

end SqlReview

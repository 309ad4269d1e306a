import SqlReview.Proofs.Analysis.Appearance
import SqlReview.Proofs.Lexical.Plain

/-!
# Statements without their comments

Structure and rules are shown a statement without its comments, and removing comments twice is
removing them once. So the analysis of a statement is that of what is left of it, as long as
something is left. A statement of comments alone is not blank, but what is left of it is: its
metrics are those of a blank statement, and yet the rule on missing limits has its say.
-/

namespace SqlReview

open SqlReview.Text SqlReview.Lexical SqlReview.Search SqlReview.Query SqlReview.Rule

/-! ### What is left of a statement -/

private theorem plain_of_isBlankText {s : List Char} (h : isBlankText s = true) : Plain s := by
  have hall : ∀ c ∈ s, isQuote c = false ∧ c ≠ '-' ∧ c ≠ '/' := by
    intro c hc
    have hblank : isBlank c = true := List.all_eq_true.mp h c hc
    refine ⟨isQuote_of_isBlank hblank, ?_, ?_⟩
    · rintro rfl
      exact absurd hblank (by decide)
    · rintro rfl
      exact absurd hblank (by decide)
  simpa using Plain.append_of_forall (t := []) rfl hall

/-- A statement has the structure of what is left of it. -/
theorem structureOf_removeComments (s : List Char) :
    structureOf (removeComments s) = structureOf s := by
  have h : removeComments (removeComments s) = removeComments s := plain_removeComments s
  rw [structureOf, h, structureOf]

private theorem subject_removeComments (s : List Char) (m : Metrics) :
    Subject.of (removeComments s) m = Subject.of s m := by
  have h : removeComments (removeComments s) = removeComments s := plain_removeComments s
  rw [Subject.of, h, Subject.of]

/-- A statement of which something is left is examined as what is left of it. -/
theorem examine_removeComments (rules : List Rule) {s : List Char}
    (h : isBlankText (removeComments s) = false) :
    examine rules (removeComments s) = examine rules s := by
  have hs : isBlankText s = false := by
    rw [Bool.eq_false_iff]
    intro hblank
    rw [plain_of_isBlankText hblank] at h
    exact Bool.false_ne_true (h.symm.trans hblank)
  rw [examine, examine, h, hs, structureOf_removeComments]
  simp only [Bool.false_eq_true, if_false, subject_removeComments]

/-! ### Statements of which nothing is left -/

private theorem occurrencesFrom_of_isBlankText {a : Phrase} (ha : a.Refuses) {s : List Char}
    (h : isBlankText s = true) (before : Option Char) : occurrencesFrom a before s = [] := by
  induction s generalizing before with
  | nil => simp
  | cons c s ih =>
    obtain ⟨hc, hs⟩ : isBlank c = true ∧ isBlankText s = true := by simpa [isBlankText] using h
    rw [occurrencesFrom_blank ha hc, ih hs]

/-- A blank text is as tidy as one blank, if it is not empty. -/
theorem tidy_of_isBlankText (f : Folding) {w : List Char} (hw : isBlankText w = true) :
    tidy f w = [] ∨ tidy f w = [' '] := by
  cases w with
  | nil => exact .inl rfl
  | cons c w => exact .inr (by simpa using tidy_blanks_append f (List.cons_ne_nil c w) hw [])

/-- In blanks there is nothing to blank. -/
theorem blankFrom_of_isBlankText {filled : Char → Bool} {w : List Char}
    (hw : isBlankText w = true) : blankFrom filled none w = w := by
  simpa using blankFrom_blanks filled hw []

private theorem metricsOf_of_isBlankText {s : List Char}
    (h : isBlankText (removeComments s) = true) : metricsOf s = {} := by
  have hmetrics : ∀ t, tidy .none (removeComments s) = tidy .none t →
      blankLiterals (removeComments t) = t → blankStrings (removeComments t) = t →
      metricsOf s = metricsOf t := by
    intro t htidy hliterals hstrings
    apply metricsOf_eq_of_tidy_eq .none
    · rw [hliterals, blankLiterals, blankFrom_of_isBlankText h, htidy]
    · rw [hstrings, blankStrings, blankFrom_of_isBlankText h, htidy]
  rcases tidy_of_isBlankText .none h with htidy | htidy
  · exact (hmetrics [] htidy rfl rfl).trans (by decide +kernel)
  · exact (hmetrics [' '] htidy rfl rfl).trans (by decide +kernel)

/-- A list of values is not found where a blank stands. -/
theorem refuses_inList : inList.Refuses :=
  Phrase.waits_boundary.all (by simp) ((Phrase.sought_exactly (by decide)).refuses.all _)

private theorem check_eq_none_of_isBlankText {r : Rule} (hr : r ∈ catalogue)
    (hid : r.entry.id ∈ contentRules) {b : List Char} (hb : isBlankText b = true) (m : Metrics)
    (n : List Char) : r.check ⟨m, n, b⟩ = none := by
  simp only [contentRules, List.mem_cons, List.not_mem_nil, or_false] at hid
  rcases hid with hid | hid
  · have hmem : leadingWildcard ∈ catalogue := by simp [catalogue]
    have hnone := occurrencesFrom_of_isBlankText sought_likePattern.refuses hb none
    rw [eq_of_id_eq hr hmem hid]
    simp only [leadingWildcard, occurrences, hnone]
    rfl
  · have hmem : largeInList ∈ catalogue := by simp [catalogue]
    have hnone := occurrencesFrom_of_isBlankText refuses_inList hb none
    rw [eq_of_id_eq hr hmem hid]
    simp only [largeInList, inListLengths, occurrences, hnone]
    rfl

/-- No rule tells a blank text from an empty one. -/
theorem check_of_isBlankText {r : Rule} (hr : r ∈ catalogue) {b : List Char}
    (hb : isBlankText b = true) (n : List Char) :
    r.check ⟨{}, n, b⟩ = r.check ⟨{}, [], []⟩ := by
  have hone : ∀ q ∈ catalogue, q.check ⟨{}, [], [' ']⟩ = q.check ⟨{}, [], []⟩ := by
    decide +kernel
  by_cases hid : r.entry.id ∈ contentRules
  · rw [check_eq_none_of_isBlankText hr hid hb, check_eq_none_of_isBlankText hr hid rfl]
  · rw [ignoresLayout_of_mem_catalogue hr hid {} n [] b]
    rcases tidy_of_isBlankText .none hb with htidy | htidy
    · rw [htidy]
    · rw [htidy, hone r hr]

/-- The report on a statement of which nothing is left. -/
theorem evaluate_of_isBlankText (settings : Settings) {s : List Char}
    (h : isBlankText (removeComments s) = true) :
    evaluate (enabled settings) (Subject.of s {}) = evaluate (enabled settings) ⟨{}, [], []⟩ := by
  have hblanked : isBlankText (Subject.of s {}).blanked = true := by
    change isBlankText (upperAscii (blankLiterals (removeComments s))) = true
    rw [← isBlankText_eq_of_sameText (sameText_upperAscii _), blankLiterals,
      blankFrom_of_isBlankText h, h]
  rw [evaluate, evaluate]
  congr 1
  apply fired_congr
  intro r hr
  obtain ⟨q, hq, -, hcheck⟩ := exists_mem_catalogue hr
  rw [hcheck]
  exact check_of_isBlankText hq hblanked _

/-- The analysis of a statement that is not blank, but of which nothing is left. -/
theorem analyze_of_comments {s : List Char} (hs : isBlankText s = false)
    (h : isBlankText (removeComments s) = true) :
    analyze s = { recommendations := evaluate (enabled {}) ⟨{}, [], []⟩ } := by
  rw [analyze_of_not_blank hs, metricsOf_of_isBlankText h, evaluate_of_isBlankText {} h]

private theorem ids_evaluate_empty :
    (evaluate (enabled {}) ⟨{}, [], []⟩).map (·.id) = ["missing-limit"] := by
  rw [evaluate, sortByTier_eq_tiers]
  decide +kernel

/-! ### Both cases -/

/-- The analysis of a statement is that of the statement without its comments, unless the statement
is not blank and nothing is left of it. The complexity is the same even then, but while nothing is
said of a blank statement, of a statement of comments alone it is said that it has no limit. -/
theorem analyze_removeComments (s : List Char) :
    let plain := removeComments s
    (analyze plain).complexity = (analyze s).complexity ∧
      (analyze plain = analyze s ↔ (isBlankText plain = true → isBlankText s = true)) ∧
      (isBlankText plain = true → isBlankText s = false →
        (analyze plain).recommendations = [] ∧
          (analyze s).recommendations.map (·.id) = ["missing-limit"]) := by
  intro plain
  cases hplain : isBlankText plain with
  | false =>
    have hsame : analyze plain = analyze s := by
      rw [analyze, analyze, examine_removeComments _ hplain]
    simp [hsame]
  | true =>
    have hnothing : analyze plain = {} := analyze_of_blank hplain
    cases hs : isBlankText s with
    | true => simp [hnothing, analyze_of_blank hs]
    | false =>
      have hanalysis := analyze_of_comments hs hplain
      have hids : (analyze s).recommendations.map (·.id) = ["missing-limit"] := by
        rw [hanalysis]
        exact ids_evaluate_empty
      have hdiffer : analyze plain ≠ analyze s := by
        intro heq
        rw [← heq, hnothing] at hids
        exact absurd hids (by decide)
      exact ⟨by rw [hnothing, hanalysis], by simp [hdiffer], fun _ _ => ⟨by rw [hnothing], hids⟩⟩

/-- A statement that is a comment and nothing else. -/
theorem analyze_lone_comment :
    let s := "-- c".toList
    (isBlankText (removeComments s) = true ∧ isBlankText s = false) ∧
      (analyze (removeComments s)).recommendations = [] ∧
      (analyze s).recommendations.map (·.id) = ["missing-limit"] := by
  intro s
  have hplain : isBlankText (removeComments s) = true := by decide
  have hs : isBlankText s = false := by decide
  exact ⟨⟨hplain, hs⟩, (analyze_removeComments s).2.2 hplain hs⟩

end SqlReview

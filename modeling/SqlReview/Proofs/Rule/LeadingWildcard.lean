import SqlReview.Proofs.Lexical.KeywordIn
import SqlReview.Proofs.Search.MarkBehind
import SqlReview.Proofs.Text.WordAt
import SqlReview.Rule.Textual

/-!
# Patterns that begin with a wildcard

The rule finds `LIKE` and a mark behind it in the text whose literals are blanked, and looks for the
wildcard in the other text at the byte offset behind the mark. This is the character behind the mark
in the statement. What stands in backticks is not blanked, so a `LIKE` in a quoted identifier counts
like any other.
-/

namespace SqlReview.Rule

open SqlReview.Text SqlReview.Lexical SqlReview.Search SqlReview.Query

/-- The words that introduce a pattern. -/
def patternWords : List String := ["LIKE", "ILIKE"]

/-- Whether a text has one of the words for patterns outside of literals, in any case, and behind it
the given blanks, the mark of a literal and a wildcard. -/
def HasWildcardAfter (t blanks : List Char) : Prop :=
  ∃ keyword ∈ patternWords, ∃ u w m v, KeywordIn keyword t u w (blanks ++ m :: '%' :: v) ∧
    isBlankText blanks = true ∧ isLiteralMark m = true

/-! ### The phrase -/

private theorem isBlank_of_isLiteralMark : ∀ c, isBlank c = true → isLiteralMark c = false := by
  intro c hc
  rw [isLiteralMark, beq_of_isBlank hc (by decide), beq_of_isBlank hc (by decide)]
  rfl

private theorem isWordChar_of_isLiteralMark :
    ∀ c, isLiteralMark c = true → isWordChar c = false := by
  intro c hc
  rw [isLiteralMark, Bool.or_eq_true, beq_iff_eq, beq_iff_eq] at hc
  rcases hc with rfl | rfl <;> decide

private theorem read_like_iff {p q : Place} :
    (Phrase.all [.exactly "LIKE", .gap, .one isLiteralMark]).read p = some q ↔
      ∃ g m, g ≠ [] ∧ isBlankText g = true ∧ isLiteralMark m = true ∧
        p.Before ("LIKE".toList ++ (g ++ [m])) q := by
  refine Option.bind_eq_some_iff.trans ⟨?_, ?_⟩
  · rintro ⟨r, hr, hq⟩
    obtain ⟨g, m, hne, hg, hm, hbefore⟩ :=
      (Phrase.read_gap_one_iff isBlank_of_isLiteralMark).mp hq
    exact ⟨g, m, hne, hg, hm, (Phrase.read_exactly_iff.mp hr).trans hbefore⟩
  · rintro ⟨g, m, hne, hg, hm, hrest, hlast⟩
    refine ⟨⟨some 'E', g ++ m :: q.rest⟩, Phrase.read_exactly_iff.mpr ⟨?_, rfl⟩,
      (Phrase.read_gap_one_iff isBlank_of_isLiteralMark).mpr ⟨g, m, hne, hg, hm, ?_, ?_⟩⟩
    · simp [hrest]
    · simp
    · rw [hlast, ← List.append_assoc, List.getLast?_concat, List.getLast?_concat]
      rfl

/-- Whether the word has an `I` before it or not, it is read where a word begins with it. -/
theorem read_likePattern_iff {p q : Place} : likePattern.read p = some q ↔
    p.before.any isWordChar = false ∧ ∃ keyword ∈ patternWords, ∃ g m, g ≠ [] ∧
      isBlankText g = true ∧ isLiteralMark m = true ∧
        p.Before (keyword.toList ++ (g ++ [m])) q := by
  have hboundary : ∀ keyword ∈ patternWords, ∀ x, p.Before (keyword.toList ++ x) q →
      p.atBoundary = !p.before.any isWordChar := by
    intro keyword hk x h
    refine Place.atBoundary_of_isWordChar ?_
    rw [h.rest]
    simp only [patternWords, List.mem_cons, List.not_mem_nil, or_false] at hk
    rcases hk with rfl | rfl
    · exact (by decide : isWordChar 'L' = true)
    · exact (by decide : isWordChar 'I' = true)
  have hread : likePattern.read p = some q ↔ p.atBoundary = true ∧
      (Phrase.all [.exactly "LIKE", .gap, .one isLiteralMark]).read
        (((Phrase.exactly "I").read p).getD p) = some q := Phrase.read_boundary_seq_iff
  rw [hread, read_like_iff]
  constructor
  · rintro ⟨hat, g, m, hne, hg, hm, hq⟩
    obtain ⟨keyword, hk, hbefore⟩ : ∃ keyword ∈ patternWords,
        p.Before (keyword.toList ++ (g ++ [m])) q := by
      cases hi : (Phrase.exactly "I").read p with
      | none =>
        rw [hi, Option.getD_none] at hq
        exact ⟨"LIKE", by decide, hq⟩
      | some r =>
        rw [hi, Option.getD_some] at hq
        exact ⟨"ILIKE", by decide, (Phrase.read_exactly_iff.mp hi).trans hq⟩
    rw [hboundary keyword hk _ hbefore] at hat
    exact ⟨by simpa using hat, keyword, hk, g, m, hne, hg, hm, hbefore⟩
  · rintro ⟨hstart, keyword, hk, g, m, hne, hg, hm, hbefore⟩
    refine ⟨by rw [hboundary keyword hk _ hbefore, hstart]; rfl, g, m, hne, hg, hm, ?_⟩
    simp only [patternWords, List.mem_cons, List.not_mem_nil, or_false] at hk
    rcases hk with rfl | rfl
    · have hnone : (Phrase.exactly "I").read p = none := by
        rw [Option.eq_none_iff_forall_ne_some]
        intro r hr
        have hrest := (Phrase.read_exactly_iff.mp hr).rest.symm.trans hbefore.rest
        exact absurd (List.cons.inj hrest).1 (by decide)
      rw [hnone]
      exact hbefore
    · obtain ⟨r, hr, hq⟩ := Place.before_cons_iff.mp hbefore
      have hi : (Phrase.exactly "I").read p = some r := Phrase.read_exactly_iff.mpr hr
      rw [hi]
      exact hq

private theorem wordFirst_likePattern : likePattern.WordFirst := by
  have hi : Phrase.Takes isWordChar (.opt (.exactly "I")) :=
    (Phrase.takes_exactly (by decide)).opt
  have hlike : Phrase.TakesWord (.all [.exactly "LIKE", .gap, .one isLiteralMark]) :=
    (Phrase.takes_exactly (by decide)).takesWord (Phrase.moves_exactly (by decide))
      (Phrase.takes_gap_one isWordChar_of_isLiteralMark)
  exact (Phrase.TakesWord.seq hi hlike).boundary

/-! ### The rule -/

variable {t : List Char}

private theorem isShown_of_mem_patternWords : ∀ keyword ∈ patternWords, IsShown keyword := by
  decide

private theorem isMark_of_isLiteralMark {m : Char} (h : isLiteralMark m = true) : IsMark m :=
  isMark_of_isQuote (isQuote_of_isLiteralMark m h)

/-- The patterns of a blanked text are the patterns of the text. -/
theorem mem_remainders_likePattern_iff {x : List Char} :
    x ∈ remainders likePattern (upperAscii (blankLiterals t)) ↔
      ∃ keyword ∈ patternWords, ∃ u w g m v, KeywordIn keyword t u w (g ++ m :: v) ∧ g ≠ [] ∧
        isBlankText g = true ∧ isLiteralMark m = true ∧
          x = upperAscii (written isLiteralMark (markSpan u w g m) v) := by
  rw [wordFirst_likePattern.mem_remainders_iff]
  constructor
  · rintro ⟨u, y, q, hsplit, hread, rfl⟩
    obtain ⟨hu, keyword, hk, g, m, hne, hg, hm, hrest, -⟩ := read_likePattern_iff.mp hread
    obtain rfl : y = keyword.toList ++ (g ++ [m]) ++ q.rest := hrest
    rw [List.append_assoc, List.append_assoc, List.singleton_append] at hsplit
    obtain ⟨p, w, v, hin, hv⟩ := exists_keywordIn_mark (isShown_of_mem_patternWords keyword hk)
      (isMark_of_isLiteralMark hm) hg hu hsplit
    exact ⟨keyword, hk, p, w, g, m, v, hin, hne, hg, hm, hv.symm⟩
  · rintro ⟨keyword, hk, u, w, g, m, v, hin, hne, hg, hm, rfl⟩
    obtain ⟨hsplit, hu⟩ := hin.upperAscii_blankLiterals_mark
      (isShown_of_mem_patternWords keyword hk) (isMark_of_isLiteralMark hm) hg
    refine ⟨_, _, ⟨some m, _⟩, hsplit,
      read_likePattern_iff.mpr ⟨hu, keyword, hk, g, m, hne, hg, hm, ?_, ?_⟩, rfl⟩
    · simp [upperAscii]
    · rw [← List.append_assoc keyword.toList, List.getLast?_concat]
      rfl

/-- At the offset behind a mark of the blanked text stands what stands behind it in the text. -/
theorem opensWildcard_eq {keyword : String} {u w g v : List Char} {m : Char}
    (hk : keyword ∈ patternWords) (h : KeywordIn keyword t u w (g ++ m :: v))
    (hg : isBlankText g = true) (hm : isLiteralMark m = true) {s : List Char} {metrics : Metrics}
    (hs : removeComments s = t) {found : Occurrence}
    (hfound : found.stop.rest = upperAscii (written isLiteralMark (markSpan u w g m) v)) :
    opensWildcard (Subject.of s metrics) found = (v.head? == some '%') := by
  subst hs
  have hsplit := (h.upperAscii_blankLiterals_mark (isShown_of_mem_patternWords keyword hk)
    (isMark_of_isLiteralMark hm) hg).1
  have hoffset : byteLength (upperAscii (blankLiterals (removeComments s))) -
      byteLength found.stop.rest = byteLength (upperAscii (u ++ (w ++ (g ++ [m])))) := by
    rw [byteLength_upperAscii (u ++ _), ← h.byteLength_mark, hsplit, hfound]
    simp only [byteLength_append, byteLength_cons, byteLength_nil]
    omega
  have htext : upperAscii (removeComments s) =
      upperAscii (u ++ (w ++ (g ++ [m]))) ++ upperAscii v := by
    rw [h.text]
    simp [upperAscii]
  have hdrop : dropBytes? (byteLength (upperAscii (u ++ (w ++ (g ++ [m])))))
      (upperAscii (removeComments s)) = some (upperAscii v) := by
    rw [htext, dropBytes?_byteLength]
  change ((dropBytes? (byteLength (upperAscii (blankLiterals (removeComments s))) -
    byteLength found.stop.rest) (upperAscii (removeComments s))).bind List.head? == some '%') = _
  rw [hoffset, hdrop, Option.bind_some]
  cases v with
  | nil => rfl
  | cons c v => exact Folding.upper.of_beq (by decide) c

/-- The rule fires if and only if the statement has a pattern behind its word and a gap that begins
with a wildcard. -/
theorem isSome_leadingWildcard_iff (s : List Char) (metrics : Metrics) :
    (leadingWildcard.check (Subject.of s metrics)).isSome = true ↔
      ∃ g, g ≠ [] ∧ HasWildcardAfter (removeComments s) g := by
  have hcheck : (leadingWildcard.check (Subject.of s metrics)).isSome =
      (occurrences likePattern (upperAscii (blankLiterals (removeComments s)))).any
        (opensWildcard (Subject.of s metrics)) := isSome_findWhen _ _ _
  rw [hcheck, List.any_eq_true]
  constructor
  · rintro ⟨found, hfound, hopens⟩
    obtain ⟨keyword, hk, u, w, g, m, v, hin, hne, hg, hm, hrest⟩ :=
      mem_remainders_likePattern_iff.mp (List.mem_map_of_mem (f := (·.stop.rest)) hfound)
    rw [opensWildcard_eq hk hin hg hm rfl hrest, beq_iff_eq] at hopens
    obtain ⟨v, rfl⟩ := List.head?_eq_some_iff.mp hopens
    exact ⟨g, hne, keyword, hk, u, w, m, v, hin, hg, hm⟩
  · rintro ⟨g, hne, keyword, hk, u, w, m, v, hin, hg, hm⟩
    obtain ⟨found, hfound, hrest⟩ := List.mem_map.mp (mem_remainders_likePattern_iff.mpr
      ⟨keyword, hk, u, w, g, m, '%' :: v, hin, hne, hg, hm, rfl⟩)
    refine ⟨found, hfound, ?_⟩
    rw [opensWildcard_eq hk hin hg hm rfl hrest]
    rfl

/-- The rule on wildcards fires on a statement that has, outside of literals, `LIKE` or `ILIKE` in
any case, then a gap, then the mark of a literal and a wildcard, and it fires on no statement that
does not have them, with or without the gap. Text in backticks is text like any other. -/
theorem leadingWildcard_finds_patterns (s : List Char) (metrics : Metrics) :
    ((∃ g, g ≠ [] ∧ HasWildcardAfter (removeComments s) g) →
        (leadingWildcard.check (Subject.of s metrics)).isSome = true) ∧
      ((leadingWildcard.check (Subject.of s metrics)).isSome = true →
        ∃ g, HasWildcardAfter (removeComments s) g) := by
  refine ⟨(isSome_leadingWildcard_iff s metrics).mpr, fun h => ?_⟩
  obtain ⟨g, -, hg⟩ := (isSome_leadingWildcard_iff s metrics).mp h
  exact ⟨g, hg⟩

/-- A pattern in double quotes after a comment and an apostrophe in backticks. -/
theorem leadingWildcard_finds_ilike :
    let s := "SELECT `'` FROM t WHERE b/**/Ilike \t\"%x".toList
    (leadingWildcard.check (Subject.of s {})).isSome = true ∧
      ∃ g, HasWildcardAfter (removeComments s) g := by
  intro s
  have htext : removeComments s =
      "SELECT `'` FROM t WHERE b ".toList ++ ("Ilike".toList ++
        (" \t".toList ++ doubleQuote :: '%' :: "x".toList)) := by decide +kernel
  have hpattern : HasWildcardAfter (removeComments s) " \t".toList :=
    ⟨"ILIKE", by decide, _, "Ilike".toList, doubleQuote, "x".toList,
      ⟨htext, by decide +kernel, by decide, by decide⟩, by decide, by decide⟩
  have hfinds := leadingWildcard_finds_patterns s {}
  have hfires := hfinds.1 ⟨_, by decide, hpattern⟩
  exact ⟨hfires, hfinds.2 hfires⟩

/-- Whether a text has one of the words for patterns outside of all quoted spans, in any case, and
behind it, blanks apart, the mark of a literal and a wildcard. -/
def HasWildcardOutside (t : List Char) : Prop :=
  ∃ keyword ∈ patternWords, ∃ u w g m v, t = u ++ (w ++ (g ++ m :: '%' :: v)) ∧
    spanBehind none u = none ∧ sameText w keyword.toList = true ∧
    u.getLast?.any isWordChar = false ∧ isBlankText g = true ∧ isLiteralMark m = true

/-- A quoted identifier may hold what looks like a pattern, and the rule fires. -/
theorem leadingWildcard_in_backticks :
    let s := "SELECT `a LIKE '%b` FROM t".toList
    (leadingWildcard.check (Subject.of s {})).isSome = true ∧
      ¬ HasWildcardOutside (removeComments s) := by
  intro s
  have htext : removeComments s = s := by decide +kernel
  rw [isSome_leadingWildcard_iff, htext]
  refine ⟨⟨" ".toList, by decide, "LIKE", by decide, "SELECT `a ".toList, "LIKE".toList, apostrophe,
    "b` FROM t".toList, ⟨by decide, by decide +kernel, by decide, by decide⟩, by decide,
    by decide⟩, ?_⟩
  rintro ⟨keyword, hk, u, w, g, m, v, hsplit, hspan, hword, -⟩
  -- at every offset outside of the span another word stands
  have hnone : ∀ n ∈ List.range (s.length + 1), spanBehind none (s.take n) = none →
      ∀ keyword ∈ patternWords,
        sameText ((s.drop n).take keyword.length) keyword.toList = false := by decide +kernel
  have hlength : keyword.length = w.length := by
    rw [length_eq_of_sameText hword, String.length_toList]
  have hu : u.length ∈ List.range (s.length + 1) := by
    rw [List.mem_range, hsplit, List.length_append]
    omega
  have hother := hnone u.length hu (by rw [hsplit, List.take_left]; exact hspan) keyword hk
  rw [hsplit, List.drop_left, hlength, List.take_left, hword] at hother
  exact Bool.noConfusion hother

end SqlReview.Rule

import SqlReview.Analysis
import SqlReview.Proofs.Checked.Rule

/-!
# Checked analyses

The analysis of a statement with every offset, range and difference on its way checked. It always
has an outcome, the analysis of the statement, so none of them is ever wrong.
-/

namespace SqlReview.Checked

open SqlReview.Text SqlReview.Lexical SqlReview.Search SqlReview.Query SqlReview.Rule

/-- The metrics of a main query without comments, the number of tables being given. -/
def mainMetrics (tableCount : Nat) (query : List Char) : Checked Metrics := do
  let blanked := blankLiterals query
  let flags := clauseFlags blanked
  let star ← isSelectStar blanked
  let depth ← subqueryDepth query
  let columns ← if star then some 0 else columnCount blanked
  some
    { tableCount
      joinCount := joinCount blanked
      subqueryDepth := depth
      aggregationCount := aggregateCount blanked
      hasDistinct := flags.hasDistinct
      hasGroupBy := flags.hasGroupBy
      hasOrderBy := flags.hasOrderBy
      hasLimit := flags.hasLimit
      hasPrewhere := flags.hasPrewhere
      hasWhere := flags.hasWhere
      isSelectStar := star
      columnCount := columns }

/-- The structure of a statement. -/
def structureOf (s : List Char) : Checked Structure := do
  let plain := removeComments s
  let named := blankStrings plain
  let bound ← boundNames named
  let tables ← tables named bound
  let main ← mainQuery plain
  let metrics ← mainMetrics tables.length main
  some { boundNames := bound, tables, mainQuery := trim main, metrics }

/-- The structure of a statement and its analysis by the rules that settings leave enabled. -/
def examine (settings : Settings) (s : List Char) : Checked (Structure × Result) :=
  if isBlankText s then some ({}, {})
  else do
    let found ← structureOf s
    let recommendations ← evaluate (enabled settings) (Subject.of s found.metrics)
    some (found, { complexity := { metrics := found.metrics }, recommendations })

private theorem mainMetrics_eq (tableCount : Nat) (query : List Char) :
    mainMetrics tableCount query = some (Query.mainMetrics tableCount query) := by
  rw [mainMetrics, isSelectStar_eq, subqueryDepth_eq, columnCount_eq, Query.mainMetrics]
  simp only [some_bind]
  cases Query.isSelectStar (blankLiterals query) <;> rfl

private theorem structureOf_eq (s : List Char) : structureOf s = some (Query.structureOf s) := by
  rw [structureOf, boundNames_eq, some_bind, tables_eq, some_bind, mainQuery_eq, some_bind,
    mainMetrics_eq]
  rfl

/-- The analysis of a text has an outcome with every offset checked, whatever the text and the
settings are: no offset lies beyond the end of a text or inside of a character, no range ends
before it starts, and no difference is negative. In particular every `LIKE` that is found in the
blanked text ends at an offset of the other text, the contents of every list of values are a part
of both texts with no fewer characters before their end than before their start, and every item of
a list of tables starts at or before its end. -/
theorem examine_without_fault (settings : Settings) (s : List Char) :
    examine settings s = some (SqlReview.examine (Rule.enabled settings) s) ∧
    (∀ metrics, let subject := Subject.of s metrics
      (∀ found ∈ occurrences likePattern subject.blanked,
        (dropBytes? (stopOffset subject.blanked found) subject.normalized).isSome = true) ∧
      ∀ range ∈ inListRanges subject,
        (slice? subject.blanked range.1 range.2).isSome = true ∧
        (slice? subject.normalized range.1 range.2).isSome = true ∧
        ∃ before after, (charsBefore subject.normalized)[range.1]? = some before ∧
          (charsBefore subject.normalized)[range.2]? = some after ∧ before ≤ after) ∧
    ∀ range ∈ fromListRanges (blankStrings (removeComments s)),
      range.1 ≤ range.2 ∧
        (slice? (blankStrings (removeComments s)) range.1 range.2).isSome = true := by
  refine ⟨?_, fun metrics => ⟨fun found hfound => ?_, fun range hrange => ?_⟩,
    fun range hrange => ?_⟩
  · rw [examine, SqlReview.examine, structureOf_eq]
    split
    · rfl
    · rw [some_bind, evaluate_eq settings (aligned_of s _)]
      rfl
  · exact ((aligned_of s metrics).likePattern hfound).dropBytes?
  · obtain ⟨hblanked, hnormalized⟩ := (aligned_of s metrics).inListRanges hrange
    exact ⟨hblanked.cut_isSome, hnormalized.cut_isSome, exists_charsBefore hnormalized⟩
  · have hwithin := within_fromListRanges hrange
    exact ⟨hwithin.le, hwithin.cut_isSome⟩

/-- Characters of two bytes before and in a pattern, a list of values that is never closed and a
list of tables. -/
theorem examine_beyond_ascii :
    let s := "SELECT é FROM ß, t WHERE é LIKE '%é' AND é IN ('é', 2".toList
    let subject := Subject.of s {}
    (∃ found ∈ occurrences likePattern subject.blanked,
      (dropBytes? (stopOffset subject.blanked found) subject.normalized).isSome = true) ∧
    (∃ range ∈ inListRanges subject,
      (slice? subject.normalized range.1 range.2).isSome = true) ∧
    ∃ range ∈ fromListRanges (blankStrings (removeComments s)), range.1 ≤ range.2 := by
  intro s subject
  have hlike : occurrences likePattern subject.blanked ≠ [] := by decide +kernel
  have hvalues : inListRanges subject ≠ [] := by decide +kernel
  have htables : fromListRanges (blankStrings (removeComments s)) ≠ [] := by decide +kernel
  obtain ⟨-, htexts, hitems⟩ := examine_without_fault {} s
  obtain ⟨hpatterns, hlists⟩ := htexts {}
  obtain ⟨found, hfound⟩ := List.exists_mem_of_ne_nil _ hlike
  obtain ⟨list, hlist⟩ := List.exists_mem_of_ne_nil _ hvalues
  obtain ⟨item, hitem⟩ := List.exists_mem_of_ne_nil _ htables
  exact ⟨⟨found, hfound, hpatterns found hfound⟩, ⟨list, hlist, (hlists list hlist).2.1⟩,
    item, hitem, (hitems item hitem).1⟩

end SqlReview.Checked

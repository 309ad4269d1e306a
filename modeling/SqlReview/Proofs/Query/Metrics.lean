import SqlReview.Proofs.Query.TopLevel
import SqlReview.Proofs.Search.Keyword

/-!
# Metrics

The metrics of a statement are those of its blanked text, the number of tables apart, and the
metrics of a blanked text are those of the tidy text.
-/

namespace SqlReview.Query

open SqlReview.Text SqlReview.Lexical SqlReview.Search

/-! ### Parts of a structure -/

/-- The names that a statement binds are bound in its text without comments and strings. -/
theorem boundNames_structureOf (s : List Char) :
    (structureOf s).boundNames = boundNames (blankStrings (removeComments s)) := rfl

/-- The tables of a statement are found in its text without comments and strings. -/
theorem tables_structureOf (s : List Char) :
    (structureOf s).tables =
      tables (blankStrings (removeComments s)) (boundNames (blankStrings (removeComments s))) := rfl

/-- The main query of a statement is that of its text without comments, trimmed. -/
theorem mainQuery_structureOf (s : List Char) :
    (structureOf s).mainQuery = trim (mainQuery (removeComments s)) := rfl

/-! ### Metrics of a blanked text -/

/-- The metrics of a main query whose literals are blanked, the number of tables being given. -/
def blankedMetrics (tableCount : Nat) (blanked : List Char) : Metrics :=
  let flags := clauseFlags blanked
  let star := isSelectStar blanked
  { tableCount
    joinCount := joinCount blanked
    subqueryDepth := subqueryDepth blanked
    aggregationCount := aggregateCount blanked
    hasDistinct := flags.hasDistinct
    hasGroupBy := flags.hasGroupBy
    hasOrderBy := flags.hasOrderBy
    hasLimit := flags.hasLimit
    hasPrewhere := flags.hasPrewhere
    hasWhere := flags.hasWhere
    isSelectStar := star
    columnCount := if star then 0 else columnCount blanked }

/-- The metrics of a main query are those of the main query with its literals blanked. -/
theorem mainMetrics_eq_blankedMetrics (tableCount : Nat) (query : List Char) :
    mainMetrics tableCount query = blankedMetrics tableCount (blankLiterals query) := by
  have h : subqueryDepth (blankLiterals query) = subqueryDepth query :=
    subqueryDepth_blankFrom _ query
  rw [mainMetrics, blankedMetrics, h]

/-- The metrics of a statement are read from its blanked text, the number of tables apart. -/
theorem metricsOf_eq_blankedMetrics (s : List Char) :
    metricsOf s = blankedMetrics (structureOf s).tables.length
      (mainQuery (blankLiterals (removeComments s))) := by
  have h : mainQuery (blankLiterals (removeComments s)) =
      blankLiterals (mainQuery (removeComments s)) := mainQuery_blankFrom _ _
  rw [h]
  exact mainMetrics_eq_blankedMetrics _ _

/-! ### Select lists of a tidy text -/

variable (f : Folding)

/-- The select list of a tidy text is the select list, tidied. -/
theorem selectList?_tidy (s : List Char) :
    selectList? (tidy f s) = (selectList? s).map (tidy f) := by
  have h : (Phrase.words ["SELECT"]).Sought f := Phrase.sought_words (by decide)
  rw [selectList?, selectList?, find?_tidy h]
  cases find? (.words ["SELECT"]) s with
  | none => rfl
  | some found => exact beforeFrom?_tidy f 0 false found.stop.rest

/-- Tidying a text leaves nothing of it when there is nothing. -/
theorem tidy_eq_nil_iff {s : List Char} : tidy f s = [] ↔ s = [] := by
  rw [← List.head?_eq_none_iff, head?_tidy, Option.map_eq_none_iff, List.head?_eq_none_iff]

private theorem tidy_eq_star_iff {s : List Char} : tidy f s = ['*'] ↔ s = ['*'] := by
  cases s with
  | nil => simp
  | cons c s =>
    by_cases hc : isBlank c = true
    · have hne : c ≠ '*' := by
        rintro rfl
        exact absurd hc (by decide)
      simp [tidy_blank_cons f hc, hne]
    · have hc' : f.of c = '*' ↔ c = '*' := f.of_eq_iff (by decide) c
      rw [tidy_cons f (by simpa using hc), List.cons_eq_cons, List.cons_eq_cons, hc',
        tidy_eq_nil_iff]

/-- A tidy text has as many columns as the text. -/
theorem columnCount_tidy (s : List Char) : columnCount (tidy f s) = columnCount s := by
  rw [columnCount, columnCount, selectList?_tidy]
  cases selectList? s with
  | none => rfl
  | some list =>
    have hparts : splitTopLevel ',' (tidy f (trim list)) =
        (splitTopLevel ',' (trim list)).map (tidy f) :=
      splitTopLevelFrom_tidy f (by decide) rfl (by decide) 0 (trim list)
    simp only [Option.map_some, trim_tidy, tidy_eq_nil_iff, tidy_eq_star_iff, hparts,
      List.length_map]

/-- Everything is selected in a tidy text where everything is in the text. -/
theorem isSelectStar_tidy (s : List Char) : isSelectStar (tidy f s) = isSelectStar s := by
  have hstar : ∀ t, ((tidy f t).head? == some '*') = (t.head? == some '*') := by
    intro t
    rw [head?_tidy]
    cases t with
    | nil => rfl
    | cons c t =>
      have hmark : Solid f (· == '*') := solid_mark (by decide) rfl
      exact hmark.tidyChar c
  rw [isSelectStar, isSelectStar, selectList?_tidy]
  cases selectList? s with
  | none => rfl
  | some list =>
    have hdistinct : IsKeyword "DISTINCT" := by decide
    simp only [Option.map_some, trimStart_tidy, afterKeyword?_tidy f hdistinct]
    cases afterKeyword? "DISTINCT" (trimStart list) with
    | none => exact hstar (trimStart list)
    | some items => simp only [Option.map_some, Option.getD_some, trimStart_tidy, hstar]

/-! ### Clauses, joins and calls of a tidy text -/

/-- The body of a clause of a tidy text is the body of the clause, tidied. -/
theorem clauseBody?_tidy {introducer : Phrase} (h : introducer.Sought f) (s : List Char) :
    clauseBody? introducer (tidy f s) = (clauseBody? introducer s).map (tidy f) := by
  rw [clauseBody?, clauseBody?, find?_tidy h]
  cases find? introducer s with
  | none => rfl
  | some found =>
    exact congrArg some (topLevel_tidy f (by decide) found.stop.rest)

/-- A tidy text has the clauses of the text. -/
theorem clauseFlags_tidy (s : List Char) : clauseFlags (tidy f s) = clauseFlags s := by
  have hwords : ∀ keywords : List String, Phrase.AreKeywords keywords →
      holds (.words keywords) (tidy f s) = holds (.words keywords) s := by
    intro keywords h
    exact holds_tidy (Phrase.sought_words h) s
  rw [clauseFlags, clauseFlags, hwords _ (by decide), hwords _ (by decide), hwords _ (by decide),
    hwords _ (by decide), hwords _ (by decide), hwords _ (by decide)]

private theorem sought_any_letters {keywords : List String} (h : ∀ k ∈ keywords, IsKeyword k) :
    (Phrase.any (keywords.map .letters)).Sought f := by
  apply Phrase.sought_any
  intro a ha
  obtain ⟨k, hk, rfl⟩ := List.mem_map.mp ha
  exact Phrase.sought_letters (h k hk)

private theorem sought_modifier {group : List String} (h : ∀ k ∈ group, IsKeyword k) :
    (Phrase.all [.any (group.map .letters), .gap]).Sought f := by
  apply Phrase.sought_all [] [.gap] (by simp) _ (sought_any_letters f h)
  intro a ha
  obtain rfl := List.mem_singleton.mp ha
  exact Phrase.steady_gap

/-- A join is sought in any case. -/
theorem sought_join : join.Sought f := by
  have hgroups : ∀ group ∈ joinModifiers, ∀ k ∈ group, IsKeyword k := by decide
  apply Phrase.sought_all (.boundary :: joinModifiers.map modifier) [.boundary]
  · intro a ha
    rcases List.mem_cons.mp ha with rfl | ha
    · exact Phrase.waits_boundary
    · obtain ⟨group, hg, rfl⟩ := List.mem_map.mp ha
      exact (sought_modifier f (hgroups group hg)).refuses.waits.opt
  · intro a ha
    rcases List.mem_append.mp ha with ha | ha
    · rcases List.mem_cons.mp ha with rfl | ha
      · exact Phrase.steady_boundary
      · obtain ⟨group, hg, rfl⟩ := List.mem_map.mp ha
        exact (sought_modifier f (hgroups group hg)).steady.opt
    · obtain rfl := List.mem_singleton.mp ha
      exact Phrase.steady_boundary
  · exact Phrase.sought_letters (by decide)

/-- A tidy text has as many joins as the text. -/
theorem joinCount_tidy (s : List Char) : joinCount (tidy f s) = joinCount s :=
  count_tidy (sought_join f) s

/-- A call of a function is sought in any case. -/
theorem sought_callOf {name : String} (h : IsKeyword name) : (callOf name).Sought f := by
  have hmark : Solid f (· == '(') := solid_mark (by decide) rfl
  apply Phrase.sought_all [] [.blanks, .one (· == '(')] (by simp) _ (Phrase.sought_letters h)
  intro a ha
  simp only [List.nil_append, List.mem_cons, List.not_mem_nil, or_false] at ha
  rcases ha with rfl | rfl
  · exact Phrase.steady_blanks
  · exact Phrase.steady_one hmark

/-- A call of an aggregate function is sought in any case. -/
theorem sought_aggregateCall : aggregateCall.Sought f := by
  have hnames : ∀ name ∈ aggregateFunctions, IsKeyword name := by decide +kernel
  apply Phrase.sought_all [.boundary] []
  · intro a ha
    obtain rfl := List.mem_singleton.mp ha
    exact Phrase.waits_boundary
  · intro a ha
    obtain rfl := List.mem_singleton.mp ha
    exact Phrase.steady_boundary
  · apply Phrase.sought_any
    intro a ha
    obtain ⟨name, hname, rfl⟩ := List.mem_map.mp ha
    exact sought_callOf f (hnames name hname)

/-- A tidy text has as many aggregate calls as the text. -/
theorem aggregateCount_tidy (s : List Char) : aggregateCount (tidy f s) = aggregateCount s :=
  count_tidy (sought_aggregateCall f) s

/-- The metrics of a blanked text are those of the tidy text. -/
theorem blankedMetrics_tidy (tableCount : Nat) (s : List Char) :
    blankedMetrics tableCount (tidy f s) = blankedMetrics tableCount s := by
  rw [blankedMetrics, blankedMetrics, joinCount_tidy, subqueryDepth_tidy, aggregateCount_tidy,
    clauseFlags_tidy, isSelectStar_tidy, columnCount_tidy]

end SqlReview.Query

import SqlReview.Proofs.Query.AggregateCalls
import SqlReview.Proofs.Query.JoinModifiers
import SqlReview.Proofs.Query.Table
import SqlReview.Query.SelectList
import SqlReview.Rule.Textual

/-!
# Searches of a statement

No search of a statement ever goes back. Behind each part of a phrase that could take less stands
one that begins otherwise: a mark or a capital letter behind blanks, a mark behind a name, `LIKE`
behind the `I` of `ILIKE`. Only the name of a table may be followed by anything, and nothing has to
follow it.
-/

namespace SqlReview.Query

open SqlReview.Text SqlReview.Search Phrase

/-- The parenthesis of a call behind blanks is read without going back. -/
theorem direct_callMark : callMark.Direct :=
  (sole_blanks_one fun _ hc => beq_of_isBlank hc (by decide)).direct

/-- A name behind a keyword is read without going back, with or without a parenthesis: less of the
gap would leave a blank, which is in no name, and the parenthesis need not be there. -/
theorem direct_introducedName {keyword : String} (h : IsKeyword keyword) :
    (introducedName keyword).Direct := by
  have hname : Direct (.seq (.atLeastOne isTableChar) (.opt callMark)) :=
    (direct_atLeastOne _).seq_of_total direct_callMark.opt fun _ => rfl
  have hrefuses : Refuses (.seq (.atLeastOne isTableChar) (.opt callMark)) :=
    (refuses_one (solid_isTableChar .none).blank).seq.seq
  have hgap : FirstBefore (.seq (.letters keyword) .gap) (.seq (.atLeastOne isTableChar)
      (.opt callMark)) :=
    ((sole_letters h.1).firstBefore _).seq hrefuses.firstBefore_gap
  exact ((sole_boundary.firstBefore _).seq hgap).direct_seq hname

end SqlReview.Query

namespace SqlReview.Rule

open SqlReview.Text SqlReview.Lexical SqlReview.Search SqlReview.Query Phrase

private theorem refuses_mark {m : Char} (hm : isBlank m = false) (b : Phrase) :
    Refuses (.seq (.one (· == m)) b) :=
  (refuses_one fun _ hc => beq_of_isBlank hc hm).seq

/-- A pattern is read without going back: its `I` is left out only where there is none. -/
theorem direct_likePattern : likePattern.Direct := by
  have hquote : Refuses (.one fun c => c == apostrophe || c == doubleQuote) :=
    refuses_one (solid_none (by decide)).blank
  have hletter : Opens (· == 'I') (.exactly "I") := opens_exactly rfl
  have hsole : Sole (.exactly "I") := sole_exactly (by decide)
  -- Where an `I` stands no `LIKE` does, so the `I` of an `ILIKE` is never left out.
  refine sole_boundary.direct_seq <| FirstBefore.direct_seq (b := .seq (.exactly "LIKE") _)
    ((hsole.firstBefore _).opt hsole.direct (hletter.apart_of_ne (opens_exactly rfl).seq ?_)) ?_
  · decide
  · exact (sole_exactly (by decide)).direct_seq
      (hquote.firstBefore_gap.direct_seq (sole_one _).direct)

/-- A negated test is read without going back. -/
theorem direct_negatedTest : negatedTest.Direct := by
  have hin : Opens (· == 'I') (.exactly "IN") := opens_exactly rfl
  have hexists : Opens (· == 'E') (.exactly "EXISTS") := opens_exactly rfl
  have htest : Sole (.any [.exactly "IN", .exactly "EXISTS"]) :=
    (sole_exactly (by decide)).either (sole_exactly (by decide))
      (hin.apart_of_ne hexists (by decide))
  have hrefuses : Refuses (.any [.exactly "IN", .exactly "EXISTS"]) :=
    (sought_exactly (by decide)).refuses.either (sought_exactly (by decide)).refuses
  exact sole_boundary.direct_seq <| (sole_exactly (by decide)).direct_seq <|
    hrefuses.seq.firstBefore_gap.direct_seq (htest.direct_seq sole_boundary.direct)

/-- The beginning of a list of values is read without going back. -/
theorem direct_inList : inList.Direct :=
  sole_boundary.direct_seq ((sole_exactly (by decide)).direct_seq direct_callMark)

/-- A subquery is read without going back. -/
theorem direct_scalarSubquery : scalarSubquery.Direct := by
  have hrefuses : Refuses (.seq (.exactly "SELECT") .boundary) :=
    (sought_exactly (by decide)).refuses.seq
  exact (sole_one _).direct_seq <| hrefuses.firstBefore_blanks.direct_seq <|
    (sole_exactly (by decide)).direct_seq sole_boundary.direct

/-- A wrapped column is read without going back, name, parentheses and comparison. -/
theorem direct_wrappedColumn : wrappedColumn.Direct := by
  have hname : ∀ c, isBlank c = true → isFunctionChar c = false := (solid_none (by decide)).blank
  have hcapital : ∀ c, isBlank c = true → isCapital c = false := (solid_none (by decide)).blank
  have hcolumn : ∀ c, isBlank c = true → (isFunctionChar c || c == '.') = false :=
    (solid_none (by decide)).blank
  -- the function and the opening parenthesis
  refine sole_boundary.direct_seq ((sole_one _).direct_seq ?_)
  refine (firstBefore_run_mark hname (by decide) _).direct_seq ?_
  refine (refuses_mark (by decide) _).firstBefore_blanks.direct_seq ((sole_one _).direct_seq ?_)
  -- the column and the closing parenthesis
  refine (refuses_one hcapital).seq.firstBefore_blanks.direct_seq ((sole_one _).direct_seq ?_)
  refine (firstBefore_run_mark hcolumn (by decide) _).direct_seq ?_
  refine (refuses_mark (by decide) _).firstBefore_blanks.direct_seq ((sole_one _).direct_seq ?_)
  -- the comparison
  have hsign : HoldsNoBlank fun c => c == '=' || c == '<' || c == '>' || c == '!' := by decide
  have hwords : ∀ k ∈ ["IN", "LIKE", "BETWEEN"], AreKeywords [k] := by decide
  refine (refuses_any ?_).firstBefore_blanks.direct_seq (direct_any ?_)
  · intro a ha
    simp only [List.mem_cons, List.not_mem_nil, or_false] at ha
    rcases ha with rfl | rfl | rfl | rfl
    · exact refuses_one (solid_none hsign).blank
    all_goals exact (sought_exactWords (hwords _ (by decide))).refuses
  · intro a ha
    simp only [List.mem_cons, List.not_mem_nil, or_false] at ha
    rcases ha with rfl | rfl | rfl | rfl
    · exact (sole_one _).direct
    all_goals exact direct_exactWords (hwords _ (by decide))

/-! ### All searches -/

/-- The words of clauses, which are looked for in any case. -/
def clauseWords : List (List String) :=
  [["SELECT"], ["DISTINCT"], ["PREWHERE"], ["WHERE"], ["GROUP", "BY"], ["ORDER", "BY"], ["LIMIT"]]

/-- The words that rules look for as they stand. -/
def ruleWords : List (List String) :=
  [["WHERE"], ["GROUP", "BY"], ["OR"], ["FINAL"], ["UNION"], ["UNION", "ALL"]]

/-- The phrases that statements are searched for. -/
def searchedPhrases : List Phrase :=
  [introducedName "FROM", introducedName "JOIN", callMark, join, aggregateCall, likePattern,
    negatedTest, wrappedColumn, scalarSubquery, inList] ++
  (clauseWords.map .words ++ ruleWords.map .exactWords)

/-- No search goes back: wherever a phrase is looked for, the first of its readings is the one that
is found. -/
theorem direct_of_mem_searchedPhrases : ∀ a ∈ searchedPhrases, a.Direct := by
  have hclauses : ∀ keywords ∈ clauseWords, AreKeywords keywords := by decide
  have hrules : ∀ keywords ∈ ruleWords, AreKeywords keywords := by decide
  intro a ha
  simp only [searchedPhrases, List.mem_append, List.mem_map, List.mem_cons, List.not_mem_nil,
    or_false] at ha
  rcases ha with (rfl | rfl | rfl | rfl | rfl | rfl | rfl | rfl | rfl | rfl) |
    ⟨keywords, hmem, rfl⟩ | ⟨keywords, hmem, rfl⟩
  · exact direct_introducedName (by decide)
  · exact direct_introducedName (by decide)
  · exact direct_callMark
  · exact direct_join
  · exact direct_aggregateCall
  · exact direct_likePattern
  · exact direct_negatedTest
  · exact direct_wrappedColumn
  · exact direct_scalarSubquery
  · exact direct_inList
  · exact direct_words (hclauses keywords hmem)
  · exact direct_exactWords (hrules keywords hmem)

end SqlReview.Rule

import SqlReview.Proofs.Query.Metrics
import SqlReview.Proofs.Rule.Contents

/-!
# Rules and tidy texts

A rule that looks at the metrics and the blanked text alone finds in a tidy text what it finds in
the text. Rules look for words as they stand, so letters are left as they are.
-/

namespace SqlReview.Rule

open SqlReview.Text SqlReview.Lexical SqlReview.Search SqlReview.Query

/-! ### Phrases of rules -/

private theorem steady_char {p : Char → Bool} (h : HoldsNoBlank p) :
    (Phrase.one p).Steady .none :=
  Phrase.steady_one (solid_none h)

/-- A negated test is sought as it stands. -/
theorem sought_negatedTest : negatedTest.Sought .none := by
  apply Phrase.sought_all [.boundary] [.gap, .any [.exactly "IN", .exactly "EXISTS"], .boundary]
  · intro a ha
    obtain rfl := List.mem_singleton.mp ha
    exact Phrase.waits_boundary
  · intro a ha
    simp only [List.mem_append, List.mem_cons, List.not_mem_nil, or_false] at ha
    rcases ha with rfl | rfl | rfl | rfl
    · exact Phrase.steady_boundary
    · exact Phrase.steady_gap
    · apply Phrase.steady_any
      intro b hb
      simp only [List.mem_cons, List.not_mem_nil, or_false] at hb
      rcases hb with rfl | rfl
      · exact (Phrase.sought_exactly (by decide)).steady
      · exact (Phrase.sought_exactly (by decide)).steady
    · exact Phrase.steady_boundary
  · exact Phrase.sought_exactly (by decide)

/-- A subquery is sought as it stands. -/
theorem sought_scalarSubquery : scalarSubquery.Sought .none := by
  apply Phrase.sought_all [] [.blanks, .exactly "SELECT", .boundary] (by simp)
  · intro a ha
    simp only [List.nil_append, List.mem_cons, List.not_mem_nil, or_false] at ha
    rcases ha with rfl | rfl | rfl
    · exact Phrase.steady_blanks
    · exact (Phrase.sought_exactly (by decide)).steady
    · exact Phrase.steady_boundary
  · exact Phrase.sought_one (solid_none (by decide))

private theorem steady_comparison :
    (Phrase.any [.one fun c => c == '=' || c == '<' || c == '>' || c == '!', .exactWords ["IN"],
      .exactWords ["LIKE"], .exactWords ["BETWEEN"]]).Steady .none := by
  have hwords : ∀ keywords : List String, Phrase.AreKeywords keywords →
      (Phrase.exactWords keywords).Steady .none := by
    intro keywords h
    exact (Phrase.sought_exactWords h).steady
  apply Phrase.steady_any
  intro a ha
  simp only [List.mem_cons, List.not_mem_nil, or_false] at ha
  rcases ha with rfl | rfl | rfl | rfl
  · exact steady_char (by decide)
  · exact hwords _ (by decide)
  · exact hwords _ (by decide)
  · exact hwords _ (by decide)

/-- A wrapped column is sought as it stands. -/
theorem sought_wrappedColumn : wrappedColumn.Sought .none := by
  apply Phrase.sought_all [.boundary] [.run isFunctionChar, .blanks, .one (· == '('), .blanks,
    .one isCapital, .run (fun c => isFunctionChar c || c == '.'), .blanks, .one (· == ')'),
    .blanks, .any [.one fun c => c == '=' || c == '<' || c == '>' || c == '!',
      .exactWords ["IN"], .exactWords ["LIKE"], .exactWords ["BETWEEN"]]]
  · intro a ha
    obtain rfl := List.mem_singleton.mp ha
    exact Phrase.waits_boundary
  · intro a ha
    simp only [List.mem_append, List.mem_cons, List.not_mem_nil, or_false] at ha
    rcases ha with rfl | rfl | rfl | rfl | rfl | rfl | rfl | rfl | rfl | rfl | rfl
    · exact Phrase.steady_boundary
    · exact Phrase.steady_run (solid_none (by decide))
    · exact Phrase.steady_blanks
    · exact steady_char (by decide)
    · exact Phrase.steady_blanks
    · exact steady_char (by decide)
    · exact Phrase.steady_run (solid_none (by decide))
    · exact Phrase.steady_blanks
    · exact steady_char (by decide)
    · exact Phrase.steady_blanks
    · exact steady_comparison
  · exact Phrase.sought_one (solid_none (by decide))

/-! ### Rules on the blanked text -/

/-- Whether a rule finds in the tidy text what it finds in the text. -/
def IgnoresLayout (r : Rule) : Prop :=
  ∀ (m : Metrics) (n n' b : List Char), r.check ⟨m, n, b⟩ = r.check ⟨m, n', tidy .none b⟩

private theorem ignoresLayout_negatedMembership : IgnoresLayout negatedMembership := by
  intro m n n' b
  simp only [negatedMembership, holds_tidy sought_negatedTest]

private theorem unionCounts_tidy (s : List Char) : unionCounts (tidy .none s) = unionCounts s := by
  have hcount : ∀ keywords : List String, Phrase.AreKeywords keywords →
      count (.exactWords keywords) (tidy .none s) = count (.exactWords keywords) s := by
    intro keywords h
    exact count_tidy (Phrase.sought_exactWords h) s
  rw [unionCounts, unionCounts, hcount _ (by decide), hcount _ (by decide)]

private theorem ignoresLayout_unionWithoutAll : IgnoresLayout unionWithoutAll := by
  intro m n n' b
  simp only [unionWithoutAll, unionCounts_tidy]

private theorem wrappingFunction?_tidy (condition : List Char) :
    wrappingFunction? (tidy .none condition) = wrappingFunction? condition := by
  have hname : ∀ found : Occurrence,
      (found.tidy .none).start.rest.takeWhile isFunctionChar =
        found.start.rest.takeWhile isFunctionChar := by
    intro found
    have hsolid : Solid .none isFunctionChar := solid_none (by decide)
    have h := takeWhile_tidy .none hsolid found.start.rest
    rw [show Folding.none.of = id from rfl, List.map_id] at h
    exact h
  unfold wrappingFunction?
  rw [occurrences_tidy sought_wrappedColumn, List.map_map]
  simp only [Function.comp_def, hname]

private theorem ignoresLayout_functionOnColumn : IgnoresLayout functionOnColumn := by
  intro m n n' b
  have hwhere : (Phrase.exactWords ["WHERE"]).Sought .none :=
    Phrase.sought_exactWords (by decide)
  simp only [functionOnColumn, clauseBody?_tidy .none hwhere]
  cases clauseBody? (.exactWords ["WHERE"]) b with
  | none => rfl
  | some condition =>
    simp only [Option.map_some, Option.bind_eq_bind, Option.bind_some, wrappingFunction?_tidy]

private theorem ignoresLayout_correlatedSubquery : IgnoresLayout correlatedSubquery := by
  intro m n n' b
  simp only [correlatedSubquery, mainQuery_tidy, selectList?_tidy]
  cases selectList? (mainQuery b) with
  | none => rfl
  | some list =>
    simp only [Option.map_some, Option.bind_eq_bind, Option.bind_some,
      holds_tidy sought_scalarSubquery]

private theorem ignoresLayout_manyOrConditions : IgnoresLayout manyOrConditions := by
  intro m n n' b
  have hor : (Phrase.exactWords ["OR"]).Sought .none :=
    Phrase.sought_exactWords (by decide)
  simp only [manyOrConditions, count_tidy hor]

private theorem ignoresLayout_finalKeyword : IgnoresLayout finalKeyword := by
  intro m n n' b
  have hfinal : (Phrase.exactWords ["FINAL"]).Sought .none :=
    Phrase.sought_exactWords (by decide)
  simp only [finalKeyword, holds_tidy hfinal]

private theorem contains_tidy {k : Char} (hk : isBlank k = false) (s : List Char) :
    (tidy .none s).contains k = s.contains k := by
  have hblank : ∀ c, isBlank c = true → (k == c) = false := by
    intro c hc
    rw [BEq.comm]
    exact beq_of_isBlank hc hk
  fun_induction tidy .none s with
  | case1 => rfl
  | case2 c s hc hs ih => rw [ih, List.contains_cons, hblank c hc, Bool.false_or]
  | case3 c s hc hs ih =>
    rw [List.contains_cons, List.contains_cons, ih, hblank c hc, hblank ' ' rfl]
  | case4 c s hc ih =>
    rw [List.contains_cons, List.contains_cons, ih]
    rfl

private theorem ignoresLayout_groupByExpression : IgnoresLayout groupByExpression := by
  intro m n n' b
  have hgroup : (Phrase.exactWords ["GROUP", "BY"]).Sought .none :=
    Phrase.sought_exactWords (by decide)
  simp only [groupByExpression, clauseBody?_tidy .none hgroup]
  cases clauseBody? (.exactWords ["GROUP", "BY"]) b with
  | none => rfl
  | some keys =>
    simp only [Option.map_some, Option.bind_eq_bind, Option.bind_some, contains_tidy (k := '(') rfl]

/-- The rules that do not look into literals find the same in the tidy text. -/
theorem ignoresLayout_of_mem_catalogue {r : Rule} (hr : r ∈ catalogue)
    (hid : r.entry.id ∉ contentRules) : IgnoresLayout r := by
  simp only [catalogue, List.mem_cons, List.not_mem_nil, or_false] at hr
  rcases hr with rfl | rfl | rfl | rfl | rfl | rfl | rfl | rfl | rfl | rfl | rfl | rfl | rfl |
    rfl | rfl | rfl | rfl | rfl | rfl | rfl
  -- the rules on the text go by their names; those left over look at the metrics alone
  all_goals first
    | with_reducible exact ignoresLayout_negatedMembership
    | with_reducible exact ignoresLayout_unionWithoutAll
    | with_reducible exact ignoresLayout_functionOnColumn
    | with_reducible exact ignoresLayout_correlatedSubquery
    | with_reducible exact ignoresLayout_manyOrConditions
    | with_reducible exact ignoresLayout_finalKeyword
    | with_reducible exact ignoresLayout_groupByExpression
    | exact absurd (by decide) hid
    | exact fun _ _ _ _ => rfl

end SqlReview.Rule

import SqlReview.Proofs.Query.QuotedSpan

/-!
# Metrics around a quoted span

A literal is blanked before the metrics of a main query are read, so they depend neither on its
marks nor on its content. An identifier in backticks is not blanked, and what it holds is read as
part of the query: it counts as it does on its own.
-/

namespace SqlReview.Query

open SqlReview.Text SqlReview.Lexical SqlReview.Search Phrase

variable {m : Char} {p w : List Char}

/-! ### Blanked contents -/

private theorem isQuote_doubleQuote : isQuote doubleQuote = true := rfl

/-- No word is found in a blanked content. -/
theorem count_words_fillers {keywords : List String} (hk : AreKeywords keywords)
    (hforeign : ∀ k ∈ keywords, IsForeign k) (ha : (words keywords).avoids doubleQuote = true)
    (n : Nat) : count (words keywords) (List.replicate n filler) = 0 := by
  have hframed := framed_words (.literal n isQuote_doubleQuote) hk hforeign
  have hcount := hframed.count_eq (v := []) rfl []
  rw [List.nil_append, count_mark (isWordChar_of_isQuote isQuote_doubleQuote) ha
    (sought_words (f := .none) hk).moves] at hcount
  exact Nat.add_eq_left.mp hcount

private theorem aggregateCount_fillers (n : Nat) :
    aggregateCount (List.replicate n filler) = 0 := by
  have hcount := aggregateCount_margins (v := []) rfl (.literal n isQuote_doubleQuote) []
  rw [List.nil_append, aggregateCount, count_mark (isWordChar_of_isQuote isQuote_doubleQuote)
    (avoids_aggregateCall isQuote_doubleQuote) (sought_aggregateCall .none).moves] at hcount
  exact Nat.add_eq_left.mp hcount

private theorem clauseFlags_fillers (n : Nat) : clauseFlags (List.replicate n filler) = {} := by
  have hholds : ∀ keywords : List String, AreKeywords keywords → (∀ k ∈ keywords, IsForeign k) →
      (words keywords).avoids doubleQuote = true →
      holds (words keywords) (List.replicate n filler) = false := by
    intro keywords hk hforeign ha
    rw [← Bool.not_eq_true, holds_iff_count_pos, count_words_fillers hk hforeign ha]
    exact Nat.lt_irrefl 0
  rw [clauseFlags, hholds _ (by decide) (by decide) (by decide),
    hholds _ (by decide) (by decide) (by decide), hholds _ (by decide) (by decide) (by decide),
    hholds _ (by decide) (by decide) (by decide), hholds _ (by decide) (by decide) (by decide),
    hholds _ (by decide) (by decide) (by decide)]

private theorem isQuiet_fillers (n : Nat) : IsQuiet (List.replicate n filler) where
  opening h := absurd (List.eq_of_mem_replicate h) (by decide)
  closing h := absurd (List.eq_of_mem_replicate h) (by decide)
  select := by
    rw [← Bool.not_eq_true, holds_iff_count_pos, count_words_fillers (by decide) (by decide)
      (by decide)]
    exact Nat.lt_irrefl 0
  source := by
    have hnone := beforeFrom?_append (.literal n isQuote_doubleQuote) 0 false []
    rw [List.nil_append, beforeFrom?_mark isQuote_doubleQuote] at hnone
    exact Option.map_eq_none_iff.mp hnone

/-- A content is blanked to fillers. -/
theorem exists_flatMap_content (w : List Char) :
    ∃ n, w.flatMap (content true) = List.replicate n filler := by
  refine ⟨_, List.eq_replicate_of_mem ?_⟩
  intro c hc
  obtain ⟨d, -, hd⟩ := List.mem_flatMap.mp hc
  exact List.eq_of_mem_replicate hd

/-! ### Around a span -/

/-- Metrics to which a text adds the joins, the calls and the clauses that it holds on its own. -/
def addContent (metrics : Metrics) (w : List Char) : Metrics :=
  let flags := clauseFlags w
  { metrics with
    joinCount := metrics.joinCount + joinCount w
    aggregationCount := metrics.aggregationCount + aggregateCount w
    hasDistinct := metrics.hasDistinct || flags.hasDistinct
    hasGroupBy := metrics.hasGroupBy || flags.hasGroupBy
    hasOrderBy := metrics.hasOrderBy || flags.hasOrderBy
    hasLimit := metrics.hasLimit || flags.hasLimit
    hasPrewhere := metrics.hasPrewhere || flags.hasPrewhere
    hasWhere := metrics.hasWhere || flags.hasWhere }

/-- A blanked content adds nothing. -/
theorem addContent_fillers (metrics : Metrics) (n : Nat) :
    addContent metrics (List.replicate n filler) = metrics := by
  have hjoins : joinCount (List.replicate n filler) = 0 := by
    rw [joinCount_eq_count, count_words_fillers (by decide) (by decide) (by decide)]
  simp [addContent, hjoins, aggregateCount_fillers, clauseFlags_fillers]

/-- The content of a span adds to the metrics around it. -/
theorem blankedMetrics_span {x : List Char} (hx : Whole x) (hm : isQuote m = true)
    (hw : SpanText m w) (k : Nat) (y : List Char) :
    let span := blankedMetrics k (x ++ m :: (w ++ m :: y))
    span = { addContent (blankedMetrics k (hollow x y)) w with
      isSelectStar := span.isSelectStar
      columnCount := span.columnCount } := by
  have hdepth := subqueryDepthFrom_hollow hx hm hw 0 y
  rw [← subqueryDepth, ← subqueryDepth] at hdepth
  simp only [blankedMetrics, addContent, joinCount_span hm, aggregateCount_span hm,
    clauseFlags_span hm, hdepth, ClauseFlags.or]

/-- What is selected around a span: a quiet content makes no difference, and neither does a span
behind the select list. -/
theorem blankedMetrics_span_list (hm : isQuote m = true) (k : Nat) (x y : List Char)
    (h : (selectList? x).isSome = true ∨ IsQuiet w) :
    let span := blankedMetrics k (x ++ m :: (w ++ m :: y))
    let empty := blankedMetrics k (hollow x y)
    span.isSelectStar = empty.isSelectStar ∧
      ((selectList? x).isSome = true ∨ ',' ∉ w → span.columnCount = empty.columnCount) := by
  have hstar := isSelectStar_span hm x y h
  refine ⟨hstar, fun hcomma => ?_⟩
  have hcolumns : columnCount (x ++ m :: (w ++ m :: y)) = columnCount (hollow x y) := by
    apply columnCount_span hm x y
    rcases h with hlist | hquiet
    · exact .inl hlist
    · exact hcomma.imp_right fun hw => ⟨hquiet, hw⟩
  rw [blankedMetrics, blankedMetrics, hstar, hcolumns]

private theorem blankedMetrics_fillers {x : List Char} (hx : Whole x) (hm : isQuote m = true)
    (k n : Nat) (y : List Char) :
    blankedMetrics k (x ++ m :: (List.replicate n filler ++ m :: y)) =
      blankedMetrics k (hollow x y) := by
  have hspan : SpanText m (List.replicate n filler) := by
    apply SpanText.of_forall hm
    intro c hc
    rw [List.eq_of_mem_replicate hc]
    exact ⟨by decide, by decide⟩
  have hcomma : ',' ∉ List.replicate n filler :=
    fun h => absurd (List.eq_of_mem_replicate h) (by decide)
  obtain ⟨hstar, hcolumns⟩ := blankedMetrics_span_list hm k x y (.inr (isQuiet_fillers n))
  rw [blankedMetrics_span hx hm hspan, addContent_fillers, hstar, hcolumns (.inr hcomma)]

/-! ### Literals -/

/-- The metrics of a main query are those around an empty span in the place of a literal. -/
theorem mainMetrics_literal (hp : Whole p) (hm : m = apostrophe ∨ m = doubleQuote)
    (hw : SpanText m w) (k : Nat) (y : List Char) :
    mainMetrics k (mainQuery (p ++ m :: (w ++ m :: y))) =
      mainMetrics k (mainQuery (hollow p y)) := by
  have hquote : isQuote m = true := by rcases hm with rfl | rfl <;> rfl
  have hfilled : (m == apostrophe || m == doubleQuote) = true := by rcases hm with rfl | rfl <;> rfl
  rcases mainQuery_span hp y with ⟨t, -, ht⟩ | ⟨hx, hmain⟩
  · have hhollow : mainQuery (hollow p y) = t := ht doubleQuote [] isQuote_doubleQuote .nil
    rw [ht m w hquote hw, hhollow]
  · have hhollow : mainQuery (hollow p y) = hollow (mainQuery p) y :=
      hmain doubleQuote [] isQuote_doubleQuote .nil
    have hempty : blankLiterals (hollow (mainQuery p) y) =
        hollow (blankLiterals (mainQuery p)) (blankLiterals y) :=
      hx.blankFrom_span _ isQuote_doubleQuote .nil y
    obtain ⟨n, hn⟩ := exists_flatMap_content w
    rw [hmain m w hquote hw, hhollow, mainMetrics_eq_blankedMetrics, mainMetrics_eq_blankedMetrics,
      hempty, blankLiterals, hx.blankFrom_span _ hquote hw, hfilled, hn]
    exact blankedMetrics_fillers (hx.blankFrom _) hquote k n _

/-! ### Identifiers -/

/-- What the main query holds of a content between `p` and `q`, which have no comments. -/
def heldContent (p w q : List Char) : List Char :=
  if q.length < (mainQuery (hollow p q)).length then w else []

/-- What the select list may hold of it: nothing when the list has ended before. -/
def listedContent (p w q : List Char) : List Char :=
  if (selectList? (blankLiterals (mainQuery p))).isSome then [] else heldContent p w q

/-- What the main query holds of an identifier in backticks adds to the metrics around it. -/
theorem mainMetrics_backtick (hp : Whole p) (hw : SpanText backtick w) (k : Nat) (y : List Char) :
    let span := mainMetrics k (mainQuery (p ++ backtick :: (w ++ backtick :: y)))
    let empty := mainMetrics k (mainQuery (hollow p y))
    span = { addContent empty (heldContent p w y) with
      isSelectStar := span.isSelectStar
      columnCount := span.columnCount } ∧
    (IsQuiet (listedContent p w y) → span.isSelectStar = empty.isSelectStar ∧
      (',' ∉ listedContent p w y → span.columnCount = empty.columnCount)) := by
  rcases mainQuery_span hp y with ⟨t, hlength, ht⟩ | ⟨hx, hmain⟩
  · have hhollow : mainQuery (hollow p y) = t := ht doubleQuote [] isQuote_doubleQuote .nil
    have hheld : heldContent p w y = List.replicate 0 filler := if_neg (by rw [hhollow]; omega)
    rw [ht backtick w rfl hw, hhollow, hheld]
    intro span empty
    rw [addContent_fillers]
    exact ⟨rfl, fun _ => ⟨rfl, fun _ => rfl⟩⟩
  · have hhollow : mainQuery (hollow p y) = hollow (mainQuery p) y :=
      hmain doubleQuote [] isQuote_doubleQuote .nil
    have hheld : heldContent p w y = w := by
      refine if_pos ?_
      rw [hhollow, hollow, List.length_append, List.length_cons, List.length_cons]
      omega
    have hempty : blankLiterals (hollow (mainQuery p) y) =
        hollow (blankLiterals (mainQuery p)) (blankLiterals y) :=
      hx.blankFrom_span _ isQuote_doubleQuote .nil y
    have hspan : blankLiterals (mainQuery p ++ backtick :: (w ++ backtick :: y)) =
        blankLiterals (mainQuery p) ++ backtick :: (w ++ backtick :: blankLiterals y) := by
      have hkept : w.flatMap (content false) = w := List.flatMap_singleton' w
      rw [blankLiterals, hx.blankFrom_span _ rfl hw]
      exact congrArg (fun v => _ ++ backtick :: (v ++ _)) hkept
    rw [hmain backtick w rfl hw, hhollow, mainMetrics_eq_blankedMetrics,
      mainMetrics_eq_blankedMetrics, hempty, hspan, listedContent, hheld]
    refine ⟨blankedMetrics_span (hx.blankFrom _) rfl hw k _, ?_⟩
    cases hlist : (selectList? (blankLiterals (mainQuery p))).isSome with
    | true =>
      have hsame := blankedMetrics_span_list (w := w) (m := backtick) rfl k _ (blankLiterals y)
        (.inl hlist)
      exact fun _ => ⟨hsame.1, fun _ => hsame.2 (.inl hlist)⟩
    | false =>
      intro hquiet
      have hsame := blankedMetrics_span_list (m := backtick) rfl k
        (blankLiterals (mainQuery p)) (blankLiterals y) (.inr hquiet)
      exact ⟨hsame.1, fun hcomma => hsame.2 (.inr hcomma)⟩

/-- An identifier between backticks and between double quotes. All metrics but the number of tables
are those with double quotes and what the main query holds of the identifier, except that a select
list that holds it has to hold no parenthesis, `SELECT`, `FROM` or comma with it. -/
theorem metricsOf_backtick {q : List Char} (hp : Region.code.after p = .code)
    (hw : ∀ c ∈ w, isQuote c = false ∧ c ≠ backslash) :
    let bare := metricsOf (p ++ backtick :: (w ++ backtick :: q))
    let filled := metricsOf (p ++ doubleQuote :: (w ++ doubleQuote :: q))
    let held := heldContent (removeComments p) w (removeComments q)
    let listed := listedContent (removeComments p) w (removeComments q)
    bare = { addContent filled held with
      tableCount := bare.tableCount
      isSelectStar := bare.isSelectStar
      columnCount := bare.columnCount } ∧
    (IsQuiet listed → bare.isSelectStar = filled.isSelectStar ∧
      (',' ∉ listed → bare.columnCount = filled.columnCount)) := by
  intro bare filled held listed
  have hwhole := whole_removeComments hp
  have hspan : ∀ m, isQuote m = true → metricsOf (p ++ m :: (w ++ m :: q)) =
      mainMetrics (metricsOf (p ++ m :: (w ++ m :: q))).tableCount
        (mainQuery (removeComments p ++ m :: (w ++ m :: removeComments q))) := by
    intro m hm
    rw [← removeComments_span hp hm (.of_forall hm hw) q]
    rfl
  have hfilled : filled =
      mainMetrics filled.tableCount (mainQuery (hollow (removeComments p) (removeComments q))) := by
    rw [← mainMetrics_literal hwhole (.inr rfl) (.of_forall isQuote_doubleQuote hw)]
    exact hspan doubleQuote rfl
  obtain ⟨hsame, hlist⟩ := mainMetrics_backtick hwhole (.of_forall (by decide) hw) bare.tableCount
    (removeComments q)
  rw [← hspan backtick rfl] at hsame hlist
  rw [hfilled]
  exact ⟨hsame, hlist⟩

/-- A column between backticks that is named like a keyword: it has the clause of the keyword, and
it is one column. -/
theorem metricsOf_keyword_column :
    let p := "SELECT a, ".toList
    let w := "limit".toList
    let q := " FROM t".toList
    let bare := metricsOf (p ++ backtick :: (w ++ backtick :: q))
    let filled := metricsOf (p ++ doubleQuote :: (w ++ doubleQuote :: q))
    Region.code.after p = .code ∧ (∀ c ∈ w, isQuote c = false ∧ c ≠ backslash) ∧
      bare.hasLimit = true ∧ bare.joinCount = filled.joinCount ∧
      bare.isSelectStar = filled.isSelectStar ∧ bare.columnCount = filled.columnCount := by
  intro p w q bare filled
  have hp : Region.code.after p = .code := by decide
  have hw : ∀ c ∈ w, isQuote c = false ∧ c ≠ backslash := by decide
  obtain ⟨hsame, hlist⟩ := metricsOf_backtick (q := q) hp hw
  have hheld : heldContent (removeComments p) w (removeComments q) = w := by decide +kernel
  have hlisted : listedContent (removeComments p) w (removeComments q) = w := by decide +kernel
  have hquiet : IsQuiet w := ⟨by decide, by decide, by decide +kernel, by decide⟩
  rw [hlisted] at hlist
  rw [hheld] at hsame
  have hlimit : (clauseFlags w).hasLimit = true := by decide +kernel
  have hjoins : joinCount w = 0 := by decide +kernel
  have hbare := congrArg Metrics.hasLimit hsame
  have hcount := congrArg Metrics.joinCount hsame
  simp only [addContent, hlimit, Bool.or_true] at hbare
  simp only [addContent, hjoins, Nat.add_zero] at hcount
  exact ⟨hp, hw, hbare, hcount, (hlist hquiet).1, (hlist hquiet).2 (by decide)⟩

/-- Without the double quotes a name is read as the keyword it is, and a comma in it as a comma. -/
theorem metricsOf_limit :
    let p := "SELECT ".toList
    let q := " FROM t".toList
    let marked := fun m w => p ++ m :: (w ++ m :: q)
    Region.code.after p = .code ∧ removeComments p = p ∧ removeComments q = q ∧
      (∀ w ∈ ["limit".toList, "a,b".toList],
        w ≠ [] ∧ ∀ c ∈ w, isQuote c = false ∧ c ≠ backslash) ∧
      (metricsOf (marked backtick "limit".toList)).hasLimit = true ∧
      (metricsOf (marked doubleQuote "limit".toList)).hasLimit = false ∧
      (metricsOf (marked backtick "a,b".toList)).columnCount = 2 ∧
      (metricsOf (marked doubleQuote "a,b".toList)).columnCount = 1 := by
  decide +kernel

end SqlReview.Query

import SqlReview.Proofs.Query.ListItems
import SqlReview.Proofs.Query.Metrics
import SqlReview.Proofs.Search.Loosened

/-!
# The main query of a loosened text

A space before a parenthesis ends a name as the parenthesis does, in a quoted span as well as
outside of any. So the scans come to the same keywords, and the metrics of a loosened main query
are those of the main query.
-/

namespace SqlReview.Query

open SqlReview.Text SqlReview.Lexical SqlReview.Search Phrase

variable {s t : List Char}

/-! ### Keywords -/

private theorem rel_dropLetters? {ks : List Char} (hk : ∀ k ∈ ks, isNameChar k = true)
    (h : Loosened s t) : Option.Rel Loosened (dropLetters? ks s) (dropLetters? ks t) := by
  induction ks generalizing s t with
  | nil => exact .some h
  | cons k ks ih =>
    have hletter := hk k (List.mem_cons_self ..)
    cases h with
    | nil => exact .none
    | cons c h =>
      rw [dropLetters?, dropLetters?]
      split
      · exact ih (fun k' hk' => hk k' (List.mem_cons_of_mem k hk')) h
      · exact .none
    | space h =>
      rw [dropLetters?, dropLetters?, sameLetter_of_isNameChar hletter (by decide),
        sameLetter_of_isNameChar hletter (by decide)]
      exact .none

private theorem startsInName_loosened (h : Loosened s t) : startsInName s = startsInName t :=
  h.head?_any (by decide)

variable {keyword : String}

/-- A keyword is followed in the loosened text by what follows it. -/
theorem rel_afterKeyword? (hk : ∀ k ∈ keyword.toList, isNameChar k = true) (h : Loosened s t) :
    Option.Rel Loosened (afterKeyword? keyword s) (afterKeyword? keyword t) := by
  have hdrop := rel_dropLetters? hk h
  rw [afterKeyword?, afterKeyword?]
  generalize dropLetters? keyword.toList s = x at hdrop ⊢
  generalize dropLetters? keyword.toList t = y at hdrop ⊢
  cases hdrop with
  | none => exact .none
  | some hrest =>
    rw [Option.filter_some, Option.filter_some, startsInName_loosened hrest]
    split
    · exact .some hrest
    · exact .none

private theorem startsWith_loosened (hk : ∀ k ∈ keyword.toList, isNameChar k = true)
    (h : Loosened s t) : startsWith keyword s = startsWith keyword t :=
  isSome_eq_of_rel (rel_afterKeyword? hk h)

private theorem startsWith_opening (hne : keyword.toList ≠ [])
    (hk : ∀ k ∈ keyword.toList, isNameChar k = true) (s : List Char) :
    startsWith keyword ('(' :: s) = false := by
  obtain ⟨k, ks, hks⟩ := List.exists_cons_of_ne_nil hne
  have hletter : sameLetter k '(' = false :=
    sameLetter_of_isNameChar (hk k (by simp [hks])) (by decide)
  rw [startsWith, afterKeyword?, hks, dropLetters?, hletter]
  rfl

/-! ### Quoted spans -/

/-- A span goes on after a parenthesis, and no escape goes beyond it. -/
theorem next_opening {q : OpenSpan} (hq : isQuote q.mark = true) :
    q.next '(' = some { mark := q.mark } := by
  have hmark : ('(' == q.mark) = false := by
    rw [beq_eq_false_iff_ne]
    intro h
    rw [← h] at hq
    exact absurd hq (by decide)
  obtain ⟨m, escaped⟩ := q
  cases escaped with
  | true => rfl
  | false =>
    have hslash : ('(' == backslash) = false := by decide
    simp only [OpenSpan.next, hslash, hmark, Bool.false_eq_true, if_false]

private theorem not_open (q : OpenSpan) (h : none = some q) : isQuote q.mark = true :=
  absurd h (by simp)

/-! ### The main query -/

/-- The first `SELECT` outside of parentheses and spans is found in the loosened text. -/
theorem rel_selectFrom (h : Loosened s t) (d : Nat) {span : Option OpenSpan}
    (hspan : ∀ q, span = some q → isQuote q.mark = true) (b : Bool) :
    Option.Rel Loosened (selectFrom d span b s) (selectFrom d span b t) := by
  induction h generalizing d span b with
  | nil => exact .none
  | @cons c s t h ih =>
    cases span with
    | some q =>
      rw [selectFrom, selectFrom]
      apply ih
      intro q' hq'
      rw [mark_next hq']
      exact hspan q rfl
    | none =>
      have hkey : startsWith "SELECT" (c :: s) = startsWith "SELECT" (c :: t) :=
        startsWith_loosened (by decide) (.cons c h)
      rw [selectFrom, selectFrom, hkey]
      split
      · next hquote =>
        apply ih
        intro q hq
        obtain rfl := Option.some.inj hq
        exact hquote
      · split
        · exact ih _ not_open _
        · split
          · exact ih _ not_open _
          · split
            · exact .some (.cons c h)
            · exact ih _ not_open _
  | @space s t h ih =>
    cases span with
    | some q =>
      have hq := hspan q rfl
      have hmark : isQuote (OpenSpan.mark { mark := q.mark }) = true := hq
      rw [selectFrom, selectFrom, next_opening hq, next_blank hq rfl]
      rw [selectFrom, next_opening hmark]
      apply ih
      intro q' hq'
      obtain rfl := Option.some.inj hq'
      exact hq
    | none =>
      have hblank := selectFrom_blank (c := ' ') rfl d b ('(' :: t)
      rw [hblank]
      exact ih (d + 1) not_open false

/-- A loosened text has a prologue where the text has one. -/
theorem hasPrologue_loosened (h : Loosened s t) : hasPrologue s = hasPrologue t :=
  startsWith_loosened (by decide) h.trimStart

/-- The main query of a loosened text is the loosened main query. -/
theorem mainQuery_loosened (h : Loosened s t) : Loosened (mainQuery s) (mainQuery t) := by
  rw [mainQuery, mainQuery, hasPrologue_loosened h]
  split
  · have hselect := rel_selectFrom h 0 not_open false
    generalize selectFrom 0 none false s = x at hselect ⊢
    generalize selectFrom 0 none false t = y at hselect ⊢
    cases hselect with
    | none => exact h
    | some hmain => exact hmain
  · exact h

/-! ### Subqueries -/

/-- Subqueries are nested as deeply in the loosened text. -/
theorem subqueryDepthFrom_loosened (h : Loosened s t) (d : Nat) {span : Option OpenSpan}
    (hspan : ∀ q, span = some q → isQuote q.mark = true) :
    subqueryDepthFrom d span s = subqueryDepthFrom d span t := by
  induction h generalizing d span with
  | nil => rfl
  | @cons c s t h ih =>
    cases span with
    | some q =>
      rw [subqueryDepthFrom, subqueryDepthFrom]
      apply ih
      intro q' hq'
      rw [mark_next hq']
      exact hspan q rfl
    | none =>
      have hkey : startsWith "SELECT" (trimStart s) = startsWith "SELECT" (trimStart t) :=
        startsWith_loosened (by decide) h.trimStart
      rw [subqueryDepthFrom, subqueryDepthFrom, hkey]
      split
      · next hquote =>
        apply ih
        intro q hq
        obtain rfl := Option.some.inj hq
        exact hquote
      · rw [ih (d + 1) not_open, ih (d - 1) not_open, ih d not_open]
  | @space s t h ih =>
    cases span with
    | some q =>
      have hq := hspan q rfl
      have hmark : isQuote (OpenSpan.mark { mark := q.mark }) = true := hq
      rw [subqueryDepthFrom, subqueryDepthFrom, next_opening hq, next_blank hq rfl]
      rw [subqueryDepthFrom, next_opening hmark]
      apply ih
      intro q' hq'
      obtain rfl := Option.some.inj hq'
      exact hq
    | none =>
      have hkey : startsWith "SELECT" (trimStart s) = startsWith "SELECT" (trimStart t) :=
        startsWith_loosened (by decide) h.trimStart
      have hblank := subqueryDepthFrom_blank (c := ' ') rfl d ('(' :: t)
      have hquote : isQuote '(' = false := by decide
      rw [hblank, subqueryDepthFrom, subqueryDepthFrom, hkey, hquote, ih (d + 1) not_open,
        ih (d - 1) not_open, ih d not_open]
      rfl

private theorem subqueryDepth_loosened (h : Loosened s t) : subqueryDepth s = subqueryDepth t :=
  subqueryDepthFrom_loosened h 0 not_open

/-! ### Select lists -/

/-- What stands before a `FROM` of the loosened text is what stands before the `FROM`,
loosened. -/
theorem rel_beforeFrom? (h : Loosened s t) (d : Nat) (b : Bool) :
    Option.Rel Loosened (beforeFrom? d b s) (beforeFrom? d b t) := by
  induction h generalizing d b with
  | nil => exact .none
  | @cons c s t h ih =>
    have hkey : startsWith "FROM" (c :: s) = startsWith "FROM" (c :: t) :=
      startsWith_loosened (by decide) (.cons c h)
    rw [beforeFrom?, beforeFrom?, hkey]
    split
    · exact .none
    · split
      · exact .some .nil
      · have hrest := ih (if c == '(' then d + 1 else if c == ')' then d - 1 else d) (isNameChar c)
        dsimp only
        generalize beforeFrom? _ (isNameChar c) s = x at hrest ⊢
        generalize beforeFrom? _ (isNameChar c) t = y at hrest ⊢
        cases hrest with
        | none => exact .none
        | some hxy => exact .some (.cons c hxy)
  | @space s t h ih =>
    have hopening : ∀ (b : Bool) (u : List Char), beforeFrom? d b ('(' :: u) =
        (beforeFrom? (d + 1) false u).map ('(' :: ·) := by
      intro b u
      have hname : isNameChar '(' = false := by decide
      rw [beforeFrom?, startsWith_opening (by decide) (by decide), hname]
      simp
    have hblank := beforeFrom?_blank (c := ' ') rfl d b ('(' :: t)
    have hrest := ih (d + 1) false
    rw [hblank, hopening, hopening]
    generalize beforeFrom? (d + 1) false s = x at hrest ⊢
    generalize beforeFrom? (d + 1) false t = y at hrest ⊢
    cases hrest with
    | none => exact .none
    | some hxy => exact .some (.space hxy)

private theorem rel_selectList? (h : Loosened s t) :
    Option.Rel Loosened (selectList? s) (selectList? t) := by
  have hfound : (words ["SELECT"]).Found := found_words (by decide) (by decide)
  have hfind := hfound.rel_find? h
  rw [selectList?, selectList?]
  generalize find? (.words ["SELECT"]) s = x at hfind ⊢
  generalize find? (.words ["SELECT"]) t = y at hfind ⊢
  cases hfind with
  | none => exact .none
  | some hrest => exact rel_beforeFrom? hrest 0 false

/-- A loosened text has as many parts. -/
theorem length_splitTopLevelFrom_loosened (h : Loosened s t) (d : Nat) :
    (splitTopLevelFrom ',' d s).length = (splitTopLevelFrom ',' d t).length := by
  have hprepend : ∀ (w : List Char) (d : Nat) (u : List Char),
      (prepend w (splitTopLevelFrom ',' d u)).length = (splitTopLevelFrom ',' d u).length := by
    intro w d u
    obtain ⟨part, parts, hparts⟩ :=
      List.exists_cons_of_ne_nil (Checked.splitTopLevelFrom_ne_nil ',' d u)
    rw [hparts]
    rfl
  induction h generalizing d with
  | nil => rfl
  | @cons c s t h ih =>
    by_cases hcomma : c = ',' ∧ d = 0
    · obtain ⟨rfl, rfl⟩ := hcomma
      rw [splitTopLevelFrom_separator (by decide), splitTopLevelFrom_separator (by decide),
        List.length_cons, List.length_cons, ih]
    · rw [Checked.splitTopLevelFrom_cons hcomma, Checked.splitTopLevelFrom_cons hcomma, hprepend,
        hprepend, ih]
  | @space s t h ih =>
    have hplain : ∀ (c : Char) (u : List Char), c ≠ ',' →
        (splitTopLevelFrom ',' d (c :: u)).length =
          (splitTopLevelFrom ',' (depthAfter d c) u).length := by
      intro c u hc
      rw [Checked.splitTopLevelFrom_cons fun h => hc h.1, hprepend]
    have hdepth : depthAfter d ' ' = d := rfl
    rw [hplain '(' s (by decide), hplain ' ' _ (by decide), hdepth, hplain '(' t (by decide), ih]

private theorem isSelectStar_loosened (h : Loosened s t) : isSelectStar s = isSelectStar t := by
  have hlist := rel_selectList? h
  rw [isSelectStar, isSelectStar]
  generalize selectList? s = x at hlist ⊢
  generalize selectList? t = y at hlist ⊢
  cases hlist with
  | none => rfl
  | @some x y hxy =>
    have hdistinct : Option.Rel Loosened (afterKeyword? "DISTINCT" (trimStart x))
        (afterKeyword? "DISTINCT" (trimStart y)) := rel_afterKeyword? (by decide) hxy.trimStart
    dsimp only
    generalize afterKeyword? "DISTINCT" (trimStart x) = u at hdistinct ⊢
    generalize afterKeyword? "DISTINCT" (trimStart y) = v at hdistinct ⊢
    cases hdistinct with
    | none => exact congrArg (· == some '*') hxy.head?_trimStart
    | some huv => exact congrArg (· == some '*') huv.head?_trimStart

private theorem columnCount_loosened (h : Loosened s t) : columnCount s = columnCount t := by
  have hlist := rel_selectList? h
  rw [columnCount, columnCount]
  generalize selectList? s = x at hlist ⊢
  generalize selectList? t = y at hlist ⊢
  cases hlist with
  | none => rfl
  | @some x y hxy =>
    have htrim := hxy.trim
    have hstar : trim x = ['*'] ↔ trim y = ['*'] := by
      constructor
      · intro h
        rw [← htrim.eq_of_not_mem (.inl (by rw [h]; decide)), h]
      · intro h
        rw [htrim.eq_of_not_mem (.inr (by rw [h]; decide)), h]
    have hparts := length_splitTopLevelFrom_loosened htrim 0
    simp only [Option.map_some, htrim.eq_nil_iff, hstar, splitTopLevel, hparts]

/-! ### Metrics -/

private theorem found_aggregateCall : aggregateCall.Found := by
  have hnames : ∀ name ∈ aggregateFunctions, IsUnopened name := by decide +kernel
  have hcalls : ∀ a ∈ aggregateFunctions.map callOf, Loose a ∧ Shuns a := by
    intro a ha
    obtain ⟨name, hname, rfl⟩ := List.mem_map.mp ha
    exact ⟨(loose_letters (hnames name hname)).seq loose_blanks_opening,
      (shuns_letters (hnames name hname)).seq⟩
  exact {
    loose := loose_boundary.seq (loose_any fun a ha => (hcalls a ha).1)
    shuns := (shuns_any fun a ha => (hcalls a ha).2).boundary
    moves := (sought_aggregateCall .none).moves }

/-- The metrics of a loosened main query are those of the main query. -/
theorem blankedMetrics_loosened (h : Loosened s t) (tableCount : Nat) :
    blankedMetrics tableCount s = blankedMetrics tableCount t := by
  have hwords : ∀ keywords : List String, AreKeywords keywords →
      (∀ k ∈ keywords, '(' ∉ k.toList) → holds (.words keywords) s = holds (.words keywords) t :=
    fun keywords hkeywords hopen => (found_words hkeywords hopen).holds_eq h
  have hflags : clauseFlags s = clauseFlags t := by
    rw [clauseFlags, clauseFlags, hwords _ (by decide) (by decide),
      hwords _ (by decide) (by decide), hwords _ (by decide) (by decide),
      hwords _ (by decide) (by decide), hwords _ (by decide) (by decide),
      hwords _ (by decide) (by decide)]
  have hjoin : joinCount s = joinCount t := by
    rw [joinCount_eq_count, joinCount_eq_count]
    exact (found_words (by decide) (by decide)).count_eq h
  rw [blankedMetrics, blankedMetrics, hflags, hjoin, subqueryDepth_loosened h,
    isSelectStar_loosened h, columnCount_loosened h, aggregateCount, aggregateCount,
    found_aggregateCall.count_eq h]

end SqlReview.Query

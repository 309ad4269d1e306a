import SqlReview.Proofs.Query.Join
import SqlReview.Proofs.Search.Margin

/-!
# Margins of a main query

Blanks before a blanked text and an ending after it change nothing of its metrics.
-/

namespace SqlReview.Query

open SqlReview.Text SqlReview.Lexical SqlReview.Search Phrase

variable {z : List Char}

/-! ### Scans before an ending -/

private theorem dropLetters?_append (h : Ending z) {ks : List Char}
    (hk : ∀ k ∈ ks, isBlank k = false ∧ isQuote k = false) (s : List Char) :
    dropLetters? ks (s ++ z) = (dropLetters? ks s).map (· ++ z) :=
  dropLetters?_append_of_head?
    (fun k hmem => any_head?_ending h (inner_sameLetter (hk k hmem).1 (hk k hmem).2)) s

private theorem afterKeyword?_append (h : Ending z) {keyword : String} (hk : IsForeign keyword)
    (s : List Char) : afterKeyword? keyword (s ++ z) = (afterKeyword? keyword s).map (· ++ z) := by
  rw [afterKeyword?, afterKeyword?, dropLetters?_append h hk.1]
  cases dropLetters? keyword.toList s with
  | none => rfl
  | some rest =>
    rw [Option.map_some, Option.filter_some, Option.filter_some, startsInName, startsInName,
      any_head?_append_ending h inner_isNameChar]
    split <;> rfl

private theorem startsWith_append (h : Ending z) {keyword : String} (hk : IsForeign keyword)
    (s : List Char) : startsWith keyword (s ++ z) = startsWith keyword s := by
  rw [startsWith, startsWith, afterKeyword?_append h hk, Option.isSome_map]

/-- No keyword begins in an ending. -/
theorem startsWith_of_suffix (h : Ending z) {keyword : String} (hk : IsForeign keyword)
    {y : List Char} (hy : y <:+ z) : startsWith keyword y = false := by
  obtain ⟨hletters, hfirst⟩ := hk
  rw [startsWith, afterKeyword?]
  cases hks : keyword.toList with
  | nil =>
    rw [hks] at hfirst
    exact absurd hfirst (by decide)
  | cons k ks =>
    rw [hks] at hletters hfirst
    obtain ⟨hb, hq⟩ := hletters k (List.mem_cons_self ..)
    cases y with
    | nil => rfl
    | cons c y =>
      have hc : sameLetter k c = false := by
        rcases h.mem (hy.subset (List.mem_cons_self ..)) with hblank | hquote | rfl
        · exact (inner_sameLetter hb hq).blank c hblank
        · exact (inner_sameLetter hb hq).quote c hquote
        · have hfolds : foldsTo k filler = false := by simpa using hfirst
          simp only [foldsTo, Bool.or_eq_false_iff] at hfolds
          exact hfolds.1.1
      simp [dropLetters?, hc]

/-- No `FROM` is found in an ending. -/
theorem beforeFrom?_append (h : Ending z) (d : Nat) (b : Bool) (s : List Char) :
    beforeFrom? d b (s ++ z) = beforeFrom? d b s := by
  have hfrom : IsForeign "FROM" := by decide
  have hending : ∀ (y : List Char) (d : Nat) (b : Bool), y <:+ z → beforeFrom? d b y = none := by
    intro y
    induction y with
    | nil => exact fun _ _ _ => rfl
    | cons c y ih =>
      intro d b hy
      have hrest := fun d b => ih d b ((List.suffix_cons c y).trans hy)
      rw [beforeFrom?, startsWith_of_suffix h hfrom hy, Bool.and_false]
      simp only [hrest, Option.map_none, Bool.false_eq_true, if_false, ite_self]
  induction s generalizing d b with
  | nil => exact hending z d b (List.suffix_refl z)
  | cons c s ih =>
    have hkey := startsWith_append h hfrom (c :: s)
    rw [List.cons_append] at hkey ⊢
    rw [beforeFrom?, beforeFrom?, hkey]
    simp only [ih]

private theorem subqueryDepthFrom_ending (h : Ending z) (d : Nat) (span : Option OpenSpan) :
    subqueryDepthFrom d span z = d := by
  have hparen : ∀ c ∈ z, (c == '(') = false ∧ (c == ')') = false := by
    intro c hc
    rcases h.mem hc with hblank | hquote | rfl
    · exact ⟨beq_of_isBlank hblank (by decide), beq_of_isBlank hblank (by decide)⟩
    · exact ⟨(inner_mark (by decide) (by decide)).quote c hquote,
        (inner_mark (by decide) (by decide)).quote c hquote⟩
    · decide
  clear h
  induction z generalizing span with
  | nil => rfl
  | cons c z ih =>
    obtain ⟨hopen, hclose⟩ := hparen c (List.mem_cons_self ..)
    have hrest := fun span => ih span fun e he => hparen e (List.mem_cons_of_mem c he)
    cases span with
    | some q => exact hrest _
    | none =>
      rw [subqueryDepthFrom]
      simp only [hopen, hclose, Bool.false_and, Bool.false_eq_true, if_false, hrest, ite_self]

private theorem trimStart_append_ending (s z : List Char) :
    trimStart (s ++ z) = trimStart s ++ z ∨ trimStart s = [] ∧ trimStart (s ++ z) <:+ z := by
  unfold trimStart
  rw [List.dropWhile_append]
  split
  · next hs =>
    refine .inr ⟨?_, List.dropWhile_suffix isBlank⟩
    simpa using hs
  · exact .inl rfl

/-- A keyword after blanks stands before an ending where it stands where nothing follows. -/
theorem startsWith_trimStart_append (h : Ending z) {keyword : String} (hk : IsForeign keyword)
    (s : List Char) :
    startsWith keyword (trimStart (s ++ z)) = startsWith keyword (trimStart s) := by
  rcases trimStart_append_ending s z with hs | ⟨hs, hz⟩
  · rw [hs, startsWith_append h hk]
  · rw [hs, startsWith_of_suffix h hk hz, startsWith_of_suffix h hk List.nil_suffix]

private theorem subqueryDepthFrom_append (h : Ending z) (d : Nat) (span : Option OpenSpan)
    (s : List Char) : subqueryDepthFrom d span (s ++ z) = subqueryDepthFrom d span s := by
  have hselect : IsForeign "SELECT" := by decide
  have hkey := startsWith_trimStart_append h hselect
  induction s generalizing d span with
  | nil => exact subqueryDepthFrom_ending h d span
  | cons c s ih =>
    rw [List.cons_append]
    cases span with
    | some q => exact ih d _
    | none =>
      rw [subqueryDepthFrom, subqueryDepthFrom]
      simp only [hkey, ih]

private theorem subqueryDepthFrom_blanks_append {v : List Char} (hv : isBlankText v = true)
    (d : Nat) (s : List Char) : subqueryDepthFrom d none (v ++ s) = subqueryDepthFrom d none s := by
  induction v with
  | nil => rfl
  | cons c v ih =>
    obtain ⟨hc, hv⟩ : isBlank c = true ∧ isBlankText v = true := by simpa [isBlankText] using hv
    rw [List.cons_append, subqueryDepthFrom_blank hc, ih hv]

/-- No main query begins in an ending. -/
theorem selectFrom_append (h : Ending z) (d : Nat) (span : Option OpenSpan) (b : Bool)
    (s : List Char) :
    selectFrom d span b (s ++ z) = (selectFrom d span b s).map (· ++ z) := by
  have hselect : IsForeign "SELECT" := by decide
  have hending : ∀ (y : List Char) (d : Nat) (span : Option OpenSpan) (b : Bool), y <:+ z →
      selectFrom d span b y = none := by
    intro y
    induction y with
    | nil => exact fun _ _ _ _ => rfl
    | cons c y ih =>
      intro d span b hy
      have hrest := fun d span b => ih d span b ((List.suffix_cons c y).trans hy)
      cases span with
      | some q => exact hrest d _ _
      | none =>
        rw [selectFrom, startsWith_of_suffix h hselect hy]
        simp only [hrest, Bool.and_false, Bool.false_eq_true, if_false, ite_self]
  induction s generalizing d span b with
  | nil => exact hending z d span b (List.suffix_refl z)
  | cons c s ih =>
    cases span with
    | some q => exact ih d _ _
    | none =>
      have hkey := startsWith_append h hselect (c :: s)
      rw [List.cons_append] at hkey ⊢
      rw [selectFrom, selectFrom, hkey]
      simp only [ih, apply_ite (Option.map (· ++ z)), Option.map_some, List.cons_append]

/-- Blanks before a text are passed over. -/
theorem selectFrom_blanks_append {v : List Char} (hv : isBlankText v = true) (d : Nat)
    (s : List Char) : selectFrom d none false (v ++ s) = selectFrom d none false s := by
  induction v with
  | nil => rfl
  | cons c v ih =>
    obtain ⟨hc, hv⟩ : isBlank c = true ∧ isBlankText v = true := by simpa [isBlankText] using hv
    rw [List.cons_append, selectFrom_blank hc, ih hv]

/-- A prologue is told by its first word, whatever stands around the text. -/
theorem hasPrologue_margins {v : List Char} (hv : isBlankText v = true) (h : Ending z)
    (s : List Char) : hasPrologue (v ++ s ++ z) = hasPrologue s := by
  rw [hasPrologue, hasPrologue, List.append_assoc, trimStart_append hv,
    startsWith_trimStart_append h (by decide)]

/-- The names of aggregate functions have nothing in common with an ending. -/
theorem isForeign_of_mem_aggregateFunctions : ∀ name ∈ aggregateFunctions, IsForeign name := by
  decide +kernel

/-! ### Metrics between margins -/

/-- The list of a text, as far as its first `FROM`. -/
theorem selectList?_eq_bind (s : List Char) :
    selectList? s = (remainders (words ["SELECT"]) s).head?.bind (beforeFrom? 0 false) := by
  rw [selectList?, ← map_rest_find?]
  cases find? (words ["SELECT"]) s <;> rfl

variable {v : List Char} (hv : isBlankText v = true) (h : Ending z) (s : List Char)

include hv h

private theorem selectList?_margins : selectList? (v ++ s ++ z) = selectList? s := by
  have hframed : (words ["SELECT"]).Framed z := framed_words h (by decide) (by decide)
  rw [selectList?_eq_bind, selectList?_eq_bind, hframed.remainders_eq hv, List.head?_map]
  cases (remainders (words ["SELECT"]) s).head? with
  | none => rfl
  | some rest => exact beforeFrom?_append h 0 false rest

private theorem clauseFlags_margins : clauseFlags (v ++ s ++ z) = clauseFlags s := by
  have hwords : ∀ keywords : List String, AreKeywords keywords →
      (∀ k ∈ keywords, IsForeign k) → holds (words keywords) (v ++ s ++ z) =
        holds (words keywords) s := by
    intro keywords hkeywords hforeign
    exact (framed_words h hkeywords hforeign).holds_eq hv s
  rw [clauseFlags, clauseFlags, hwords _ (by decide) (by decide), hwords _ (by decide) (by decide),
    hwords _ (by decide) (by decide), hwords _ (by decide) (by decide),
    hwords _ (by decide) (by decide), hwords _ (by decide) (by decide)]

private theorem joinCount_margins : joinCount (v ++ s ++ z) = joinCount s := by
  rw [joinCount_eq_count, joinCount_eq_count]
  exact (framed_words h (by decide) (by decide)).count_eq hv s

omit hv in
private theorem settled_callOf {name : String} (hname : IsForeign name) :
    (callOf name).Settled z := by
  have hmark : Settled z (.one (· == '(')) := settled_one h (inner_mark (by decide) (by decide))
  have hhalts : Halts z (.one (· == '(')) := by
    apply halts_one
    intro c hc
    rcases h.mem hc with hblank | hquote | rfl
    · exact (inner_mark (by decide) (by decide)).blank c hblank
    · exact (inner_mark (by decide) (by decide)).quote c hquote
    · decide
  exact (settled_letters h hname).seq ((runs_run z isBlank).seq hmark hhalts)

omit hv in
private theorem framed_aggregateCall : aggregateCall.Framed z := by
  have hne : aggregateFunctions.map callOf ≠ [] := by simp [aggregateFunctions]
  have hsettled : Settled z (.any (aggregateFunctions.map callOf)) := by
    apply settled_any _ hne
    intro a ha
    obtain ⟨name, hname, rfl⟩ := List.mem_map.mp ha
    exact settled_callOf h (isForeign_of_mem_aggregateFunctions name hname)
  have hhalts : Halts z (.any (aggregateFunctions.map callOf)) := by
    apply halts_any
    intro a ha
    obtain ⟨name, hname, rfl⟩ := List.mem_map.mp ha
    exact (halts_letters h (isForeign_of_mem_aggregateFunctions name hname)).all _
  exact ⟨(sought_aggregateCall .none).refuses, (sought_aggregateCall .none).moves,
    (settled_boundary h).seq hsettled, hhalts.boundary⟩

/-- Blanks before a text and an ending after it hold no aggregate calls. -/
theorem aggregateCount_margins : aggregateCount (v ++ s ++ z) = aggregateCount s :=
  (framed_aggregateCall h).count_eq hv s

private theorem subqueryDepth_margins : subqueryDepth (v ++ s ++ z) = subqueryDepth s := by
  rw [subqueryDepth, subqueryDepth, List.append_assoc, subqueryDepthFrom_blanks_append hv,
    subqueryDepthFrom_append h]

/-- The metrics of a blanked text are those of the text between blanks and an ending. -/
theorem blankedMetrics_margins (tableCount : Nat) :
    blankedMetrics tableCount (v ++ s ++ z) = blankedMetrics tableCount s := by
  have hlist := selectList?_margins hv h s
  have hstar : isSelectStar (v ++ s ++ z) = isSelectStar s := by
    rw [isSelectStar, isSelectStar, hlist]
  have hcolumns : columnCount (v ++ s ++ z) = columnCount s := by
    rw [columnCount, columnCount, hlist]
  rw [blankedMetrics, blankedMetrics, joinCount_margins hv h, subqueryDepth_margins hv h,
    aggregateCount_margins hv h, clauseFlags_margins hv h, hstar, hcolumns]

end SqlReview.Query

import SqlReview.Proofs.Lexical.Plain
import SqlReview.Proofs.Query.Margin
import SqlReview.Proofs.Text.Trim

/-!
# The main query on its own

The main query of a statement holds no comments, and it begins with a `SELECT` or has no `SELECT`
that could begin another one. So it is its own main query, and the metrics of a statement, the
number of tables apart, are the metrics of its main query.
-/

namespace SqlReview.Query

open SqlReview.Text SqlReview.Lexical SqlReview.Search

/-! ### Parts of a plain text -/

/-- What follows a span of a plain text is plain. -/
theorem plain_of_rest? {m : Char} (hm : isQuote m = true) {s t : List Char}
    (hs : removeFrom (.quoted m) s = s) (h : OpenSpan.rest? { mark := m } s = some t) :
    Plain t := by
  generalize hr : Region.quoted m = r at hs
  fun_induction removeFrom r s with
  | case1 r => exact absurd h (by simp [OpenSpan.rest?])
  | case5 mark c s ih =>
    obtain rfl := Region.quoted.inj hr
    exact ih ((rest?_escape hm false c s).symm.trans h) rfl (List.cons.inj (List.cons.inj hs).2).2
  | case6 mark c s hc ih =>
    obtain rfl := Region.quoted.inj hr
    have hs := (List.cons.inj hs).2
    by_cases hmark : c = m
    · rw [hmark, OpenSpan.rest?, next_mark hm] at h
      obtain rfl := Option.some.inj h
      rwa [Region.afterQuoted, if_pos hmark] at hs
    · by_cases hslash : c = backslash
      · obtain rfl := eq_nil_of_backslash hc hslash
        rw [hslash] at h
        exact absurd h (by simp [OpenSpan.rest?, OpenSpan.next])
      · rw [rest?_cons (next_of_ne hmark hslash)] at h
        have hafter : Region.afterQuoted m c = .quoted m := if_neg hmark
        exact ih h hafter.symm hs
  | _ => exact absurd hr (by simp)

/-- The first `SELECT` outside of parentheses and spans of a plain text begins a plain text. -/
theorem plain_of_selectFrom {s t : List Char} (hs : Plain s) {d : Nat} {b : Bool}
    (h : selectFrom d none b s = some t) : Plain t ∧ startsWith "SELECT" t = true := by
  induction s using span_induction generalizing d b with
  | nil => exact absurd h (by simp [selectFrom])
  | quote m s hm ih =>
    rw [selectFrom, if_pos hm, selectFrom_span hm] at h
    obtain ⟨u, hu, h⟩ := Option.bind_eq_some_iff.mp h
    exact ih u hu (plain_of_rest? hm (hs.span hm) hu) h
  | char c s hc ih =>
    rw [selectFrom, hc, if_neg Bool.false_ne_true] at h
    split at h
    · exact ih (hs.tail hc) h
    · split at h
      · exact ih (hs.tail hc) h
      · split at h
        · next hkey =>
          obtain rfl := Option.some.inj h
          rw [Bool.and_eq_true] at hkey
          exact ⟨hs, hkey.2⟩
        · exact ih (hs.tail hc) h

private theorem plain_mainQuery {s : List Char} (hs : Plain s) : Plain (mainQuery s) := by
  unfold mainQuery
  split
  · cases h : selectFrom 0 none false s with
    | none => exact hs
    | some t => exact (plain_of_selectFrom hs h).1
  · exact hs

private theorem plain_trim {s : List Char} (hs : Plain s) : Plain (trim s) := by
  obtain ⟨v, w, hv, -, hvw⟩ := exists_trim s
  rw [hvw, List.append_assoc] at hs
  suffices h : Plain (trim s ++ w) from h.of_append
  clear hvw
  induction v with
  | nil => exact hs
  | cons c v ih =>
    obtain ⟨hc, hv⟩ : isBlank c = true ∧ isBlankText v = true := by simpa [isBlankText] using hv
    exact ih (Plain.tail hs (isQuote_of_isBlank hc)) hv

/-! ### The main query of a main query -/

/-- A text that begins with a keyword begins with its first letter. -/
theorem exists_of_startsWith {keyword : String} {k : Char} (hk : keyword.toList.head? = some k)
    {s : List Char} (h : startsWith keyword s = true) :
    ∃ c t, s = c :: t ∧ sameLetter k c = true := by
  obtain ⟨ks, hks⟩ := List.head?_eq_some_iff.mp hk
  rw [startsWith, afterKeyword?, hks] at h
  cases s with
  | nil => exact absurd h (by simp [dropLetters?])
  | cons c t =>
    refine ⟨c, t, rfl, ?_⟩
    rw [← Bool.not_eq_false]
    intro hc
    exact absurd h (by simp [dropLetters?, hc])

/-- A text that begins with `SELECT` has no prologue. -/
theorem hasPrologue_of_select {s : List Char} (h : startsWith "SELECT" s = true) :
    hasPrologue s = false := by
  obtain ⟨c, t, rfl, hc⟩ := exists_of_startsWith (k := 'S') (by decide) h
  have hsolid : ¬ isBlank c = true := by
    intro hblank
    rw [sameLetter_of_isBlank (by decide) hblank] at hc
    exact absurd hc (by decide)
  rw [hasPrologue, trimStart, List.dropWhile_cons_of_neg hsolid, Bool.eq_false_iff]
  intro hwith
  obtain ⟨d, u, hd, hwith⟩ := exists_of_startsWith (k := 'W') (by decide) hwith
  obtain rfl := (List.cons.inj hd).1
  simp only [sameLetter, beq_iff_eq] at hc hwith
  rw [← hc] at hwith
  exact absurd hwith (by decide)

/-- The main query, trimmed, is its own main query. -/
theorem mainQuery_trim_mainQuery {s : List Char} (hs : Plain s) :
    mainQuery (trim (mainQuery s)) = trim (mainQuery s) := by
  -- Either the main query begins with `SELECT`, or it is all of `s`.
  have hcases : startsWith "SELECT" (mainQuery s) = true ∨ mainQuery s = s ∧
      (hasPrologue s = true → selectFrom 0 none false s = none) := by
    unfold mainQuery
    split
    · cases h : selectFrom 0 none false s with
      | none => exact .inr ⟨rfl, fun _ => rfl⟩
      | some t => exact .inl (plain_of_selectFrom hs h).2
    · next h => exact .inr ⟨rfl, fun h' => absurd h' h⟩
  obtain ⟨v, w, hv, hw, hvw⟩ := exists_trim (mainQuery s)
  have hending : Ending w := .blanks hw
  generalize trim (mainQuery s) = m at hvw ⊢
  have hprologue : hasPrologue (mainQuery s) = hasPrologue m := by
    rw [hvw, hasPrologue_margins hv hending]
  rw [mainQuery]
  split
  · next hm =>
    rw [← hprologue] at hm
    rcases hcases with hselect | ⟨hmain, hnone⟩
    · rw [hasPrologue_of_select hselect] at hm
      exact absurd hm Bool.false_ne_true
    · rw [hmain] at hm hvw
      have hfrom := hnone hm
      rw [hvw, List.append_assoc, selectFrom_blanks_append hv, selectFrom_append hending,
        Option.map_eq_none_iff] at hfrom
      rw [hfrom]
      rfl
  · rfl

/-- All metrics of a statement but the number of tables are those of its main query alone, and the
main query of the main query is the main query itself. -/
theorem metricsOf_mainQuery (s : List Char) :
    let main := (structureOf s).mainQuery
    (structureOf main).mainQuery = main ∧
      metricsOf main = { metricsOf s with tableCount := (metricsOf main).tableCount } := by
  intro main
  have hplain := plain_removeComments s
  have hmain : main = trim (mainQuery (removeComments s)) := rfl
  have hkept : removeComments main = main := plain_trim (plain_mainQuery hplain)
  have hagain : mainQuery (removeComments main) = main := by
    rw [hkept, hmain, mainQuery_trim_mainQuery hplain]
  have htrimmed : trim main = main := by
    rw [hmain, trim_trim]
  constructor
  · rw [mainQuery_structureOf, hagain, htrimmed]
  · obtain ⟨v, w, hv, hw, hvw⟩ := exists_trim (mainQuery (removeComments s))
    obtain ⟨p, z, z', hz, hz', hp, hp'⟩ := sameButEnding_blankFrom
      (fun mark => mark == apostrophe || mark == doubleQuote) hw main
    have hblanked : ∀ n, blankedMetrics n (blankLiterals (mainQuery (removeComments s))) =
        blankedMetrics n (blankLiterals main) := by
      intro n
      have hstart : blankLiterals main = [] ++ p ++ z := hp
      have hwhole : blankLiterals (mainQuery (removeComments s)) = v ++ p ++ z' := by
        rw [hvw, ← hmain, List.append_assoc, List.append_assoc, ← hp']
        exact blankFrom_blanks _ hv (main ++ w)
      rw [hstart, hwhole, blankedMetrics_margins hv hz', blankedMetrics_margins rfl hz]
    have hof : ∀ t, metricsOf t = blankedMetrics (structureOf t).tables.length
        (blankLiterals (mainQuery (removeComments t))) :=
      fun _ => mainMetrics_eq_blankedMetrics _ _
    rw [hof s, hblanked, hof main, hagain]
    rfl

end SqlReview.Query

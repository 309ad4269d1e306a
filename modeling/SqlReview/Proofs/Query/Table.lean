import SqlReview.Proofs.Query.FromList
import SqlReview.Proofs.Query.Metrics
import SqlReview.Proofs.Query.Names

/-!
# Tables of a tidy text

The names found in a tidy text are the names found in the text, folded, and a table is told by the
lower case of its name. No table name has a blank, so it is bound by a tidy prologue when it is
bound by the prologue, and the tables of the tidy text are the tables of the text.
-/

namespace SqlReview.Query

open SqlReview.Text SqlReview.Lexical SqlReview.Search

variable (f : Folding)

/-! ### Names after a keyword -/

/-- The characters of table names are solid. -/
theorem solid_isTableChar : Solid f isTableChar := by
  have hmark : ∀ k ∈ ['.', '$', backtick, doubleQuote], Solid f (· == k) := by
    intro k hk
    simp only [List.mem_cons, List.not_mem_nil, or_false] at hk
    rcases hk with rfl | rfl | rfl | rfl
    all_goals exact solid_mark (by decide) rfl
  have hname := ((solid_isWordChar f).or (hmark '.' (by simp))).or (hmark '$' (by simp))
  exact (hname.or (hmark backtick (by simp))).or (hmark doubleQuote (by simp))

/-- A keyword with the gap before a name is sought in any case. -/
theorem sought_introduction {keyword : String} (h : IsKeyword keyword) :
    (introduction keyword).Sought f := by
  apply Phrase.sought_all [.boundary] [.gap]
  · intro a ha
    obtain rfl := List.mem_singleton.mp ha
    exact Phrase.waits_boundary
  · intro a ha
    simp only [List.mem_append, List.mem_singleton] at ha
    rcases ha with rfl | rfl
    · exact Phrase.steady_boundary
    · exact Phrase.steady_gap
  · exact Phrase.sought_letters h

/-- The parenthesis of a table function is steady. -/
theorem steady_callMark : callMark.Steady f := by
  have hmark : Solid f (· == '(') := solid_mark (by decide) rfl
  exact Phrase.steady_blanks.seq (Phrase.steady_one hmark)

/-- A keyword with a name is sought in any case. -/
theorem sought_introducedName {keyword : String} (h : IsKeyword keyword) :
    (introducedName keyword).Sought f := by
  apply Phrase.sought_all [] [.atLeastOne isTableChar, .opt callMark] (by simp) _
    (sought_introduction f h)
  intro a ha
  simp only [List.nil_append, List.mem_cons, List.not_mem_nil, or_false] at ha
  rcases ha with rfl | rfl
  · exact Phrase.steady_atLeastOne (solid_isTableChar f)
  · exact (steady_callMark f).opt

/-- The name in an occurrence of the tidy text is the folded name. -/
theorem tableCandidate?_tidy {keyword : String} (h : IsKeyword keyword) (found : Occurrence) :
    tableCandidate? keyword (found.tidy f) =
      (tableCandidate? keyword found).map (·.map f.of) := by
  have hread : (introduction keyword).read (found.tidy f).start =
      ((introduction keyword).read found.start).map (Place.tidy f) :=
    (sought_introduction f h).steady found.start
  rw [tableCandidate?, tableCandidate?, hread]
  cases (introduction keyword).read found.start with
  | none => rfl
  | some p =>
    have hafter : (p.tidy f).skipWhile isTableChar = (p.skipWhile isTableChar).tidy f :=
      Option.some.inj (Phrase.steady_run (solid_isTableChar f) p)
    have hcall := congrArg Option.isSome (steady_callMark f (p.skipWhile isTableChar))
    rw [Option.isSome_map] at hcall
    have htake : (p.tidy f).rest.takeWhile isTableChar = (p.rest.takeWhile isTableChar).map f.of :=
      takeWhile_tidy f (solid_isTableChar f) p.rest
    simp only [Option.map_some, hafter, hcall, htake]
    split <;> rfl

/-- The candidates of a tidy text are the candidates of the text, folded. -/
theorem tableCandidates_tidy (s : List Char) :
    tableCandidates (tidy f s) = (tableCandidates s).map (·.map f.of) := by
  have hafter : ∀ keyword : String, IsKeyword keyword →
      (occurrences (introducedName keyword) (tidy f s)).filterMap (tableCandidate? keyword) =
        ((occurrences (introducedName keyword) s).filterMap (tableCandidate? keyword)).map
          (·.map f.of) := by
    intro keyword h
    rw [occurrences_tidy (sought_introducedName f h), List.filterMap_map, List.map_filterMap]
    congr 1
    funext found
    exact tableCandidate?_tidy f h found
  have hitems : (fromListItems (tidy f s)).filterMap firstWord? =
      ((fromListItems s).filterMap firstWord?).map (·.map f.of) := by
    rw [fromListItems_tidy, List.filterMap_map, List.map_filterMap]
    congr 1
    funext item
    exact firstWord?_tidy f item
  rw [tableCandidates, tableCandidates, hafter _ (by decide), hafter _ (by decide), hitems,
    List.map_append, List.map_append]

/-! ### Table names -/

/-- A folded name names the same table. -/
theorem tableName?_map (raw : List Char) : tableName? (raw.map f.of) = tableName? raw := by
  have hparen : (raw.map f.of).contains '(' = raw.contains '(' := by
    rw [List.contains_eq_any_beq, List.contains_eq_any_beq, List.any_map]
    congr 1
    funext c
    have h := f.of_beq (k := '(') (by decide) c
    rw [Function.comp_apply, BEq.comm, h, BEq.comm]
  have hfilter : (raw.map f.of).filter (fun c => c != backtick && c != doubleQuote) =
      (raw.filter fun c => c != backtick && c != doubleQuote).map f.of := by
    rw [List.filter_map]
    congr 2
    funext c
    rw [Function.comp_apply, bne, bne, bne, bne, f.of_beq (k := backtick) (by decide),
      f.of_beq (k := doubleQuote) (by decide)]
  unfold tableName?
  rw [hparen, hfilter]
  generalize raw.filter (fun c => c != backtick && c != doubleQuote) = name
  have hhead : ((name.map f.of).head? == some '.') = (name.head? == some '.') := by
    cases name with
    | nil => rfl
    | cons c name => exact f.of_beq (k := '.') (by decide) c
  simp only [List.isEmpty_map, hhead, sameText_map, lower_map]

private theorem isBare_of_forall {s : List Char} (h : ∀ c ∈ s, isBlank c = false) :
    isBare s = true := by
  rw [isBare, Bool.not_eq_true', List.any_eq_false]
  intro c hc
  rw [h c hc]
  decide

private theorem isBlank_of_isBare {s : List Char} (h : isBare s = true) :
    ∀ c ∈ s, isBlank c = false := by
  rw [isBare, Bool.not_eq_true', List.any_eq_false] at h
  intro c hc
  simpa using h c hc

/-- A candidate after a keyword is made of characters of table names. -/
theorem isTableChar_of_tableCandidate? {keyword : String} {found : Occurrence} {raw : List Char}
    (h : tableCandidate? keyword found = some raw) : ∀ c ∈ raw, isTableChar c = true := by
  unfold tableCandidate? at h
  split at h
  · exact absurd h (by simp)
  · simp only at h
    split at h
    · exact absurd h (by simp)
    · obtain rfl := Option.some.inj h
      exact fun c hc => List.all_eq_true.mp List.all_takeWhile c hc

/-- A candidate has no blank. -/
theorem isBare_of_mem_tableCandidates {s raw : List Char} (h : raw ∈ tableCandidates s) :
    isBare raw = true := by
  have hintroduced : ∀ keyword found, tableCandidate? keyword found = some raw →
      isBare raw = true := by
    intro keyword found hfound
    apply isBare_of_forall
    intro c hc
    have hcls := isTableChar_of_tableCandidate? hfound c hc
    rw [Bool.eq_false_iff]
    intro hblank
    rw [(solid_isTableChar .none).blank c hblank] at hcls
    exact Bool.false_ne_true hcls
  have hitem : ∀ item : List Char, firstWord? item = some raw → isBare raw = true := by
    intro item hitem
    unfold firstWord? at hitem
    split at hitem
    · exact absurd hitem (by simp)
    · obtain rfl := Option.some.inj hitem
      apply isBare_of_forall
      intro c hc
      simpa using List.all_eq_true.mp List.all_takeWhile c hc
  rw [tableCandidates] at h
  rcases List.mem_append.mp h with h | h
  · rcases List.mem_append.mp h with h | h
    · obtain ⟨found, -, hfound⟩ := List.mem_filterMap.mp h
      exact hintroduced _ found hfound
    · obtain ⟨found, -, hfound⟩ := List.mem_filterMap.mp h
      exact hintroduced _ found hfound
  · obtain ⟨item, -, hraw⟩ := List.mem_filterMap.mp h
    exact hitem item hraw

/-- The name of a table has no blank. -/
theorem isBare_of_tableName? {raw name : List Char} (hraw : isBare raw = true)
    (h : tableName? raw = some name) : isBare name = true := by
  unfold tableName? at h
  split at h
  · exact absurd h (by simp)
  · simp only at h
    split at h
    · exact absurd h (by simp)
    · obtain rfl := Option.some.inj h
      rw [isBare_lower]
      apply isBare_of_forall
      intro c hc
      exact isBlank_of_isBare hraw c (List.mem_filter.mp hc).1

/-! ### Tables -/

private theorem foldl_bound_congr {bound bound' names : List (List Char)}
    (h : ∀ name ∈ names, name ∈ bound ↔ name ∈ bound') (found : List (List Char)) :
    names.foldl (fun names name => if bound.contains name then names else insertName names name)
        found =
      names.foldl (fun names name => if bound'.contains name then names else insertName names name)
        found := by
  induction names generalizing found with
  | nil => rfl
  | cons name names ih =>
    have hname : bound.contains name = bound'.contains name := by
      rw [Bool.eq_iff_iff, List.contains_iff_mem, List.contains_iff_mem]
      exact h name (List.mem_cons_self ..)
    have hrest := ih fun n hn => h n (List.mem_cons_of_mem name hn)
    rw [List.foldl_cons, List.foldl_cons, hrest, hname]

/-- The tables of a tidy text are the tables of the text, whose prologue is tidied as well. -/
theorem tables_tidy (s : List Char) :
    tables (tidy f s) (boundNames (tidy f s)) = tables s (boundNames s) := by
  have hnames : (tableCandidates (tidy f s)).filterMap tableName? =
      (tableCandidates s).filterMap tableName? := by
    rw [tableCandidates_tidy, List.filterMap_map]
    congr 1
    funext raw
    exact tableName?_map f raw
  rw [tables, tables, hnames]
  apply foldl_bound_congr
  intro name hname
  obtain ⟨raw, hraw, hraw'⟩ := List.mem_filterMap.mp hname
  exact mem_boundNames_tidy f (isBare_of_tableName? (isBare_of_mem_tableCandidates hraw) hraw') s

/-- Statements whose blanked texts are the same tidy texts have the same metrics. -/
theorem metricsOf_eq_of_tidy_eq {s t : List Char}
    (hliterals : tidy f (blankLiterals (removeComments s)) =
      tidy f (blankLiterals (removeComments t)))
    (hstrings : tidy f (blankStrings (removeComments s)) =
      tidy f (blankStrings (removeComments t))) :
    metricsOf s = metricsOf t := by
  have htables : (structureOf s).tables = (structureOf t).tables := by
    change tables (blankStrings (removeComments s)) (boundNames (blankStrings (removeComments s))) =
      tables (blankStrings (removeComments t)) (boundNames (blankStrings (removeComments t)))
    rw [← tables_tidy f, hstrings, tables_tidy]
  rw [metricsOf_eq_blankedMetrics, metricsOf_eq_blankedMetrics, htables,
    ← blankedMetrics_tidy f, ← mainQuery_tidy, hliterals, mainQuery_tidy, blankedMetrics_tidy]

end SqlReview.Query

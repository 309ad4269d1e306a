import SqlReview.Proofs.Query.Metrics
import SqlReview.Proofs.Search.Taken

/-!
# Joins and their modifiers

A join ends where its `JOIN` ends, and each `JOIN` ends a join: its modifiers hold no J, and a
search that has none before a `JOIN` begins there.
-/

namespace SqlReview.Query

open SqlReview.Text SqlReview.Search Phrase

/-- Whether a character is no J. -/
private def noJ (c : Char) : Bool := !foldsTo 'J' c

/-- Whether the place `q` can be reached from the place `p` by modifiers of a join: there is no J in
between, and a blank stands before `q` where anything does. -/
private def Reaches (p q : Place) : Prop :=
  ∃ t, p.Before t q ∧ (∀ c ∈ t, noJ c = true) ∧ ∀ c ∈ t.getLast?, isBlank c = true

private theorem Reaches.trans {p q r : Place} (h : Reaches p q) (h' : Reaches q r) :
    Reaches p r := by
  obtain ⟨t, ht, hall, hlast⟩ := h
  obtain ⟨u, hu, hall', hlast'⟩ := h'
  refine ⟨t ++ u, ht.trans hu, ?_, ?_⟩
  · intro c hc
    exact (List.mem_append.mp hc).elim (hall c) (hall' c)
  · intro c hc
    rw [List.getLast?_append] at hc
    rcases Option.or_eq_some_iff.mp hc with hc | ⟨-, hc⟩
    · exact hlast' c hc
    · exact hlast c hc

/-- Whether a keyword can modify a join without being taken for a `JOIN`. -/
private def IsModifier (keyword : String) : Prop :=
  IsKeyword keyword ∧ ∀ k ∈ keyword.toList, sameLetter k 'J' = false

private instance : DecidablePred IsModifier := fun keyword =>
  @instDecidableAnd _ _ inferInstance
    (List.decidableBAll (fun k => sameLetter k 'J' = false) keyword.toList)

private theorem isModifier_of_mem : ∀ group ∈ joinModifiers, ∀ k ∈ group, IsModifier k := by
  decide

private theorem noJ_of_foldsTo {k c : Char} (hk : sameLetter k 'J' = false)
    (h : foldsTo k c = true) : noJ c = true := by
  rw [noJ, Bool.not_eq_true', Bool.eq_false_iff]
  intro hj
  have hJ : sameLetter 'J' c = true := by simpa [foldsTo] using hj
  simp only [foldsTo, Bool.or_eq_true, Bool.and_eq_true, beq_iff_eq] at h
  rcases h with (h | ⟨-, rfl⟩) | ⟨-, rfl⟩
  · simp only [sameLetter, beq_iff_eq] at h hJ
    simp only [sameLetter, beq_eq_false_iff_ne] at hk
    exact hk (by rw [h, hJ])
  · exact absurd hJ (by decide)
  · exact absurd hJ (by decide)

private theorem takes_noJ {group : List String} (h : ∀ k ∈ group, IsModifier k) :
    Takes noJ (any (group.map letters)) := by
  apply takes_any
  intro a ha
  obtain ⟨keyword, hkeyword, rfl⟩ := List.mem_map.mp ha
  apply takes_letters
  intro k hk c hc
  exact noJ_of_foldsTo ((h keyword hkeyword).2 k hk) hc

private theorem reaches_modifier {group : List String} (h : ∀ k ∈ group, IsModifier k) {p q : Place}
    (hq : (modifier group).read p = some q) : Reaches p q := by
  have hq : ((seq (any (group.map letters)) gap).read p).getD p = q := Option.some.inj hq
  cases hr : (seq (any (group.map letters)) gap).read p with
  | none =>
    rw [hr] at hq
    obtain rfl : p = q := hq
    exact ⟨[], .refl p, by simp, by simp⟩
  | some q' =>
    rw [hr] at hq
    obtain rfl : q' = q := hq
    rw [Phrase.read_seq] at hr
    obtain ⟨r, hword, hgap⟩ := Option.bind_eq_some_iff.mp hr
    have htakes : Takes isBlank gap := (takes_one fun _ hc => hc).seq (takes_run fun _ hc => hc)
    have hmoves : gap.Moves := moves_one.seq_left
    obtain ⟨t, ht, hnoJ⟩ := takes_noJ h p r hword
    obtain ⟨u, hu, hblank⟩ := htakes r q' hgap
    refine ⟨t ++ u, ht.trans hu, ?_, ?_⟩
    · intro c hc
      rcases List.mem_append.mp hc with hc | hc
      · exact hnoJ c hc
      · rw [noJ, (solid_foldsTo (f := .none) (by decide)).blank c (hblank c hc)]
        rfl
    · intro c hc
      have hne : u.getLast? ≠ none := by
        intro hnone
        obtain rfl := List.getLast?_eq_none_iff.mp hnone
        have hlength := hmoves r q' hgap
        rw [hu.rest] at hlength
        exact absurd hlength (Nat.lt_irrefl _)
      rw [List.getLast?_append] at hc
      rcases Option.or_eq_some_iff.mp hc with hc | ⟨hnone, -⟩
      · exact hblank c (List.mem_of_getLast? hc)
      · exact absurd hnone hne

/-- A `JOIN` after modifiers, some of which may be missing. -/
def modified (groups : List (List String)) : Phrase :=
  all (groups.map modifier ++ [letters "JOIN", boundary])

/-- A `JOIN` after modifiers is the first of them and then the `JOIN` after the others. -/
theorem modified_cons (group : List String) (groups : List (List String)) :
    modified (group :: groups) = seq (modifier group) (modified groups) := by
  unfold modified
  cases groups <;> rfl

private theorem reaches_join {groups : List (List String)}
    (h : ∀ group ∈ groups, ∀ k ∈ group, IsModifier k) {p q : Place}
    (hq : (modified groups).read p = some q) :
    ∃ r, Reaches p r ∧ (modified []).read r = some q := by
  induction groups generalizing p with
  | nil => exact ⟨p, ⟨[], .refl p, by simp, by simp⟩, hq⟩
  | cons group groups ih =>
    rw [modified_cons, Phrase.read_seq] at hq
    obtain ⟨m, hm, hq⟩ := Option.bind_eq_some_iff.mp hq
    obtain ⟨r, hr, hq⟩ := ih (fun g hg => h g (List.mem_cons_of_mem group hg)) hq
    exact ⟨r, (reaches_modifier (h group (List.mem_cons_self ..)) hm).trans hr, hq⟩

private theorem opens_join : Opens (foldsTo 'J') (modified []) :=
  (opens_one.all _).seq

private theorem read_modified {groups : List (List String)}
    (h : ∀ group ∈ groups, ∀ k ∈ group, IsModifier k) {p q : Place}
    (hq : (modified []).read p = some q) : (modified groups).read p = some q := by
  induction groups with
  | nil => exact hq
  | cons group groups ih =>
    obtain ⟨c, s, hp, hc⟩ := opens_join p q hq
    have hgroup := h group (List.mem_cons_self ..)
    have hopens : Opens noJ (any (group.map letters)) := by
      apply (takes_noJ hgroup).opens
      apply moves_any
      intro a ha
      obtain ⟨k, hk, rfl⟩ := List.mem_map.mp ha
      exact (sought_letters (f := .none) (hgroup k hk).1).moves
    have hnone : (modifier group).read p = some p := by
      change some (((any (group.map letters)).read p).bind gap.read |>.getD p) = some p
      rw [hopens.read_eq_none hp (by rw [noJ, hc]; rfl)]
      rfl
    rw [modified_cons, Phrase.read_seq, hnone]
    exact ih fun g hg => h g (List.mem_cons_of_mem group hg)

private theorem atBoundary_of_reaches {p q r : Place} (hp : p.atBoundary = true)
    (h : Reaches p r) (hq : (modified []).read r = some q) : r.atBoundary = true := by
  obtain ⟨t, ht, -, hlast⟩ := h
  cases hl : t.getLast? with
  | none =>
    obtain rfl := List.getLast?_eq_none_iff.mp hl
    rw [Place.atBoundary, ht.before, ← List.nil_append r.rest, ← ht.rest]
    exact hp
  | some c =>
    obtain ⟨d, s, hs, hd⟩ := opens_join r q hq
    have hword : isWordChar d = true := by
      rw [← (solid_isWordChar .lower).fold d]
      have hlower : 'j' = d.toLower := by simpa [foldsTo, sameLetter] using hd
      change isWordChar d.toLower = true
      rw [← hlower]
      decide
    have hblank : isWordChar c = false := (solid_isWordChar .none).blank c (hlast c hl)
    rw [Place.atBoundary, ht.before, hl, hs]
    simp [hword, hblank]

private theorem read_join (p : Place) :
    join.read p = if p.atBoundary then (modified joinModifiers).read p else none := by
  change (Phrase.read .boundary p).bind (modified joinModifiers).read = _
  rw [Phrase.read_boundary]
  split <;> rfl

private theorem read_words_join (p : Place) :
    (words ["JOIN"]).read p = if p.atBoundary then (modified []).read p else none := by
  change (Phrase.read .boundary p).bind (modified []).read = _
  rw [Phrase.read_boundary]
  split <;> rfl

private theorem read_words_join_eq_none {p : Place} (h : join.read p = none) :
    (words ["JOIN"]).read p = none := by
  rw [read_join] at h
  rw [read_words_join]
  split
  · next hat =>
    rw [if_pos hat] at h
    rw [Option.eq_none_iff_forall_ne_some]
    intro q hq
    rw [read_modified isModifier_of_mem hq] at h
    exact absurd h (by simp)
  · rfl

private theorem exists_of_read_join {p q : Place} (h : join.read p = some q) :
    ∃ t r, p.Before t r ∧ (∀ c ∈ t, foldsTo 'J' c = false) ∧
      (words ["JOIN"]).read r = some q := by
  rw [read_join] at h
  split at h
  · next hat =>
    obtain ⟨r, hr, hq⟩ := reaches_join isModifier_of_mem h
    have hat' := atBoundary_of_reaches hat hr hq
    obtain ⟨t, ht, hnoJ, -⟩ := hr
    refine ⟨t, r, ht, ?_, ?_⟩
    · intro c hc
      simpa [noJ] using hnoJ c hc
    · rw [read_words_join, if_pos hat']
      exact hq
  · exact absurd h (by simp)

/-- The joins in a text end where the words `JOIN` in it end. -/
theorem map_stop_joins (before : Option Char) (s : List Char) :
    (occurrencesFrom join before s).map (·.stop) =
      (occurrencesFrom (words ["JOIN"]) before s).map (·.stop) := by
  have hopens : Opens (foldsTo 'J') (words ["JOIN"]) := opens_join.boundary
  have hjoin : join.Moves := (sought_join .none).moves
  have hword : (words ["JOIN"]).Moves := (sought_words (f := .none) (by decide)).moves
  induction before, s using hjoin.search_induction with
  | nil before => simp
  | found before c s q hread ih =>
    obtain ⟨t, r, ht, hnoJ, hstop⟩ := exists_of_read_join hread
    have hlength := hword r q hstop
    obtain ⟨before', rest⟩ := r
    have hskip : occurrencesFrom (words ["JOIN"]) before (c :: s) =
        occurrencesFrom (words ["JOIN"]) before' rest := by
      have hrest : c :: s = t ++ rest := ht.rest
      have hbefore : before' = t.getLast?.or before := ht.before
      rw [hrest, hbefore]
      exact hopens.occurrencesFrom_append hnoJ before rest
    obtain ⟨d, u, rfl⟩ : ∃ d u, rest = d :: u :=
      List.exists_cons_of_length_pos (Nat.zero_lt_of_lt hlength)
    rw [hskip, occurrencesFrom_of_read hjoin hread, occurrencesFrom_of_read hword hstop,
      List.map_cons, List.map_cons]
    exact congrArg _ ih
  | passed before c s hread ih =>
    rw [occurrencesFrom_of_read_eq_none hread,
      occurrencesFrom_of_read_eq_none (read_words_join_eq_none hread), ih]

/-- There are as many joins in a text as words `JOIN`. -/
theorem joinCount_eq_count (s : List Char) : joinCount s = count (words ["JOIN"]) s := by
  have h := congrArg List.length (map_stop_joins none s)
  rwa [List.length_map, List.length_map] at h

end SqlReview.Query

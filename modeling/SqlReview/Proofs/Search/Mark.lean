import SqlReview.Proofs.Search.Margin

/-!
# Searching on both sides of a mark

A mark is a character that no part of a phrase takes and that belongs to no word. A phrase is read
in front of a mark as where nothing follows, and behind it as at the start of a text. So a search
finds on the two sides of a mark what it finds in the two texts apart.
-/

namespace SqlReview.Search

open SqlReview.Text SqlReview.Lexical

variable {a b : Phrase} {m : Char}

namespace Phrase

/-- Whether no part of a phrase takes a character. -/
def avoids (m : Char) : Phrase → Bool
  | one cls => !cls m
  | run cls => !cls m
  | boundary => true
  | seq a b => a.avoids m && b.avoids m
  | opt a => a.avoids m
  | either a b => a.avoids m && b.avoids m

/-- Phrases one after the other avoid what all of them avoid. -/
theorem avoids_all {l : List Phrase} (hne : l ≠ []) (h : ∀ a ∈ l, a.avoids m = true) :
    (all l).avoids m = true :=
  all_of_ne_nil (P := (avoids m · = true)) (fun ha hb => Bool.and_eq_true_iff.mpr ⟨ha, hb⟩) hne h

/-- The first of several phrases that is there avoids what all of them avoid. -/
theorem avoids_any {l : List Phrase} (h : ∀ a ∈ l, a.avoids m = true) :
    (any l).avoids m = true :=
  any_of (P := (avoids m · = true)) rfl (fun ha hb => Bool.and_eq_true_iff.mpr ⟨ha, hb⟩) h

/-- The letters of a keyword are no quotation marks. -/
theorem avoids_letters {keyword : String} (hk : IsForeign keyword) (hm : isQuote m = true) :
    (letters keyword).avoids m = true := by
  refine avoids_all (by simpa using hk.ne_nil) ?_
  intro a ha
  obtain ⟨k, hmem, rfl⟩ := List.mem_map.mp ha
  obtain ⟨hb, hq⟩ := hk.1 k hmem
  rw [avoids, (inner_foldsTo hb hq).quote m hm]
  rfl

/-- A phrase is read in front of a mark as where nothing follows. -/
theorem settled_of_avoids (hm : isWordChar m = false) (h : a.avoids m = true) (u : List Char) :
    Settled (m :: u) a := by
  induction a with
  | one cls =>
    intro p
    obtain ⟨before, rest⟩ := p
    have hcls : cls m = false := by simpa [avoids] using h
    cases rest with
    | nil => simp [Place.append, hcls]
    | cons c s => by_cases hc : cls c = true <;> simp [Place.append, hc]
  | run cls =>
    intro p
    have hcls : ¬ cls m = true := by simpa [avoids] using h
    have hspan : ∀ s : List Char, (s ++ m :: u).takeWhile cls = s.takeWhile cls ∧
        (s ++ m :: u).dropWhile cls = s.dropWhile cls ++ m :: u := by
      intro s
      induction s with
      | nil =>
        rw [List.nil_append, List.takeWhile_cons_of_neg hcls, List.dropWhile_cons_of_neg hcls]
        exact ⟨rfl, rfl⟩
      | cons c s ih => by_cases hc : cls c = true <;> simp [hc, ih]
    obtain ⟨htake, hdrop⟩ := hspan p.rest
    simp [Place.skipWhile, Place.append, htake, hdrop]
  | boundary =>
    intro p
    have hat : (p.append (m :: u)).atBoundary = p.atBoundary := by
      obtain ⟨before, rest⟩ := p
      cases rest <;> simp [Place.atBoundary, Place.append, hm]
    rw [read_boundary, read_boundary, hat]
    split <;> rfl
  | seq a b iha ihb =>
    obtain ⟨ha, hb⟩ := Bool.and_eq_true_iff.mp h
    exact (iha ha).seq (ihb hb)
  | opt a ih =>
    intro p
    rw [read_opt, read_opt, ih h p]
    cases a.read p <;> rfl
  | either a b iha ihb =>
    obtain ⟨ha, hb⟩ := Bool.and_eq_true_iff.mp h
    exact (iha ha).either (ihb hb)

end Phrase

/-- A search finds in front of a mark what it finds where nothing follows, and then what it finds
behind the mark. -/
theorem occurrencesFrom_mark (hm : isWordChar m = false) (ha : a.avoids m = true)
    (hmoves : a.Moves) (before : Option Char) (s u : List Char) :
    occurrencesFrom a before (s ++ m :: u) =
      (occurrencesFrom a before s).map (Occurrence.append (m :: u)) ++
        occurrencesFrom a (some m) u := by
  have hsettled := Phrase.settled_of_avoids hm ha u
  induction before, s using hmoves.search_induction with
  | nil before =>
    have hend : a.read ⟨before, []⟩ = none := by
      rw [Option.eq_none_iff_forall_ne_some]
      intro q hq
      exact Nat.not_lt_zero _ (hmoves _ q hq)
    have hread : a.read ⟨before, m :: u⟩ = none := by
      have happend := hsettled ⟨before, []⟩
      rwa [hend] at happend
    rw [List.nil_append, occurrencesFrom_nil, occurrencesFrom_of_read_eq_none hread]
    rfl
  | found before c s q hq ih =>
    have hread := hsettled ⟨before, c :: s⟩
    rw [Place.append, List.cons_append, hq, Option.map_some] at hread
    rw [List.cons_append, occurrencesFrom_of_read hmoves hread, occurrencesFrom_of_read hmoves hq,
      List.map_cons, List.cons_append]
    exact congrArg _ ih
  | passed before c s hq ih =>
    have hread := hsettled ⟨before, c :: s⟩
    rw [Place.append, List.cons_append, hq, Option.map_none] at hread
    rw [List.cons_append, occurrencesFrom_of_read_eq_none hread,
      occurrencesFrom_of_read_eq_none hq, ih]

/-- What follows the occurrences on the two sides of a mark. -/
theorem remainders_mark (hm : isWordChar m = false) (ha : a.avoids m = true) (hmoves : a.Moves)
    (s u : List Char) :
    remainders a (s ++ m :: u) = (remainders a s).map (· ++ m :: u) ++ remainders a u := by
  have hbehind : (occurrencesFrom a (some m) u).map (·.stop.rest) =
      (occurrencesFrom a none u).map (·.stop.rest) := map_rest_occurrencesFrom a u hm
  rw [remainders, remainders, remainders, occurrences, occurrences, occurrences,
    occurrencesFrom_mark hm ha hmoves, List.map_append, hbehind, List.map_map, List.map_map]
  rfl

/-- A phrase is held as often as by the texts on the two sides of a mark. -/
theorem count_mark (hm : isWordChar m = false) (ha : a.avoids m = true) (hmoves : a.Moves)
    (s u : List Char) : count a (s ++ m :: u) = count a s + count a u := by
  simp only [count_eq_length_remainders]
  rw [remainders_mark hm ha hmoves, List.length_append, List.length_map]

/-- A phrase is held when it is held at least once. -/
theorem holds_iff_count_pos (s : List Char) : holds a s = true ↔ 0 < count a s := by
  rw [holds_eq_isSome_remainders, count_eq_length_remainders, List.isSome_head?,
    List.length_pos_iff]

/-- A phrase that is read only where another one is read occurs only where the other one occurs. -/
theorem occurrencesFrom_eq_nil (hmoves : a.Moves) (h : ∀ p, a.read p = none → b.read p = none)
    {before : Option Char} {s : List Char} (ha : occurrencesFrom a before s = []) :
    occurrencesFrom b before s = [] := by
  induction s generalizing before with
  | nil => exact occurrencesFrom_nil b before
  | cons c s ih =>
    cases hread : a.read ⟨before, c :: s⟩ with
    | some q =>
      rw [occurrencesFrom_of_read hmoves hread] at ha
      exact absurd ha (List.cons_ne_nil _ _)
    | none =>
      rw [occurrencesFrom, hread] at ha
      rw [occurrencesFrom, h _ hread]
      exact ih ha

end SqlReview.Search

import SqlReview.Proofs.Search.Steady

/-!
# Where occurrences end

An occurrence is read from a place of the text that is searched, and it ends in that text. A phrase
whose last part is one character ends right after a character of that class.
-/

namespace SqlReview.Search

open SqlReview.Text

/-- An occurrence is read from a place of the text. -/
theorem mem_occurrencesFrom {a : Phrase} {before : Option Char} {s : List Char} {o : Occurrence}
    (h : o ∈ occurrencesFrom a before s) :
    a.read o.start = some o.stop ∧ o.start.rest <:+ s := by
  fun_induction occurrencesFrom a before s with
  | case1 before => exact absurd h (by simp)
  | case2 before c s start stop hstop hlength ih =>
    rcases List.mem_cons.mp h with rfl | h
    · exact ⟨hstop, List.suffix_refl _⟩
    · obtain ⟨hread, hsuffix⟩ := ih h
      exact ⟨hread, hsuffix.trans (Phrase.suffix_read hstop)⟩
  | case3 before c s start stop hstop hlength ih =>
    obtain ⟨hread, hsuffix⟩ := ih h
    exact ⟨hread, hsuffix.trans (List.suffix_cons c s)⟩
  | case4 before c s start hstop ih =>
    obtain ⟨hread, hsuffix⟩ := ih h
    exact ⟨hread, hsuffix.trans (List.suffix_cons c s)⟩

namespace Phrase

/-- Whether a phrase ends right after a character of a class. -/
def EndsIn (cls : Char → Bool) (a : Phrase) : Prop :=
  ∀ p q : Place, a.read p = some q → ∃ c, cls c = true ∧ c :: q.rest <:+ p.rest

variable {cls : Char → Bool} {a b : Phrase}

/-- One character of a class ends in the class. -/
theorem endsIn_one : EndsIn cls (.one cls) := by
  intro p q h
  obtain ⟨before, rest⟩ := p
  cases rest with
  | nil => exact absurd h (by simp)
  | cons c s =>
    rw [read_one_cons] at h
    split at h
    · next hc =>
      obtain rfl := Option.some.inj h
      exact ⟨c, hc, List.suffix_refl _⟩
    · exact absurd h (by simp)

/-- Two phrases one after the other end as the second does. -/
theorem EndsIn.seq (hb : EndsIn cls b) : EndsIn cls (.seq a b) := by
  intro p q h
  rw [read_seq] at h
  obtain ⟨r, hr, hq⟩ := Option.bind_eq_some_iff.mp h
  obtain ⟨c, hc, hsuffix⟩ := hb r q hq
  exact ⟨c, hc, hsuffix.trans (suffix_read hr)⟩

/-- Phrases one after the other end as the last one does. -/
theorem EndsIn.all (ha : EndsIn cls a) (l : List Phrase) : EndsIn cls (.all (l ++ [a])) := by
  induction l with
  | nil => exact ha
  | cons b l ih =>
    obtain ⟨c, rest, hrest⟩ := List.exists_cons_of_ne_nil (show l ++ [a] ≠ [] by simp)
    rw [hrest] at ih
    rw [List.cons_append, hrest]
    exact ih.seq

/-- An occurrence of a phrase ends in the text right after the last character of the phrase. -/
theorem EndsIn.occurrences (ha : EndsIn cls a) {s : List Char} {o : Occurrence}
    (h : o ∈ Search.occurrences a s) : ∃ c, cls c = true ∧ c :: o.stop.rest <:+ s := by
  obtain ⟨hread, hstart⟩ := mem_occurrencesFrom h
  obtain ⟨c, hc, hsuffix⟩ := ha o.start o.stop hread
  exact ⟨c, hc, hsuffix.trans hstart⟩

end Phrase

end SqlReview.Search

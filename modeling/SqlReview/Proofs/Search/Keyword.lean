import SqlReview.Proofs.Search.Steady

/-!
# Searches for keywords

Keywords in any case and keywords as they stand are sought phrases, and so are whole words with
gaps between them. A keyword as it stands is looked for in texts whose letters are not folded.
-/

namespace SqlReview.Search.Phrase

open SqlReview.Text

variable {f : Folding} {a : Phrase}

/-! ### Putting sought phrases together -/

/-- Phrases that wait may stand before a sought one, and steady ones after it. -/
theorem sought_all (before after : List Phrase) (hwaits : ∀ b ∈ before, b.Waits)
    (hsteady : ∀ b ∈ before ++ after, b.Steady f) (ha : a.Sought f) :
    Sought f (.all (before ++ a :: after)) where
  steady := by
    apply steady_all
    intro b hb
    rcases List.mem_append.mp hb with hb | hb
    · exact hsteady b (List.mem_append_left _ hb)
    · rcases List.mem_cons.mp hb with rfl | hb
      · exact ha.steady
      · exact hsteady b (List.mem_append_right _ hb)
  refuses := by
    clear hsteady
    induction before with
    | nil => exact ha.refuses.all after
    | cons b before ih =>
      have hrest := ih fun b' hb' => hwaits b' (List.mem_cons_of_mem b hb')
      exact (hwaits b (List.mem_cons_self ..)).all (by simp) hrest
  moves := moves_all ha.moves (List.mem_append_right before (List.mem_cons_self ..))

/-- The first of several phrases that is there is sought when all are. -/
theorem sought_any {l : List Phrase} (h : ∀ a ∈ l, a.Sought f) : Sought f (.any l) where
  steady := steady_any fun a ha => (h a ha).steady
  refuses := refuses_any fun a ha => (h a ha).refuses
  moves := moves_any fun a ha => (h a ha).moves

/-- One character of a solid class is sought. -/
theorem sought_one {cls : Char → Bool} (h : Solid f cls) : Sought f (.one cls) where
  steady := steady_one h
  refuses := refuses_one h.blank
  moves := moves_one

/-- One or more characters of a solid class are steady. -/
theorem steady_atLeastOne {cls : Char → Bool} (h : Solid f cls) : Steady f (.atLeastOne cls) :=
  (steady_one h).seq (steady_run h)

/-! ### Keywords -/

private theorem sought_spelled {g : Char → Char → Bool}
    (hg : ∀ k, isBlank k = false → Solid f (g k)) {keyword : List Char} (hne : keyword ≠ [])
    (h : ∀ k ∈ keyword, isBlank k = false) :
    Sought f (.all (keyword.map fun k => .one (g k))) := by
  obtain ⟨k, ks, rfl⟩ := List.exists_cons_of_ne_nil hne
  have hone : ∀ k' ∈ k :: ks, Sought f (.one (g k')) := by
    intro k' hk'
    exact sought_one (hg k' (h k' hk'))
  rw [List.map_cons, ← List.nil_append (Phrase.one (g k) :: _)]
  apply sought_all [] _ (by simp) _ (hone k (List.mem_cons_self ..))
  intro b hb
  obtain ⟨k', hk', rfl⟩ := List.mem_map.mp hb
  exact (hone k' (List.mem_cons_of_mem k hk')).steady

/-- The cases of a letter are solid. -/
theorem solid_foldsTo {k : Char} (hk : isBlank k = false) : Solid f (foldsTo k) where
  fold c := by
    have hs := f.of_beq (k := '\u017F') (by decide) c
    have hk := f.of_beq (k := '\u212A') (by decide) c
    rw [foldsTo, foldsTo, f.sameLetter_of, hs, hk]
  blank c hc := by
    have hs : (c == '\u017F') = false := beq_of_isBlank hc (by decide)
    have hk' : (c == '\u212A') = false := beq_of_isBlank hc (by decide)
    simp [foldsTo, sameLetter_of_isBlank hk hc, hs, hk']

/-- A keyword is sought in any case. -/
theorem sought_letters {keyword : String} (h : IsKeyword keyword) : Sought f (letters keyword) :=
  sought_spelled (fun _ hk => solid_foldsTo hk) h.1 h.2

/-- A character that is no blank is solid where letters are not folded. -/
theorem solid_eq {k : Char} (hk : isBlank k = false) : Solid .none (· == k) where
  fold _ := rfl
  blank _ hc := beq_of_isBlank hc hk

/-- A keyword is sought as it stands where letters are not folded. -/
theorem sought_exactly {keyword : String} (h : IsKeyword keyword) :
    Sought .none (exactly keyword) :=
  sought_spelled (g := fun k c => c == k) (fun _ hk => solid_eq hk) h.1 h.2

/-! ### Whole words -/

/-- What stands in a list with separators is a separator or a member. -/
theorem mem_intersperse {sep : Phrase} {l : List Phrase} (h : a ∈ l.intersperse sep) :
    a = sep ∨ a ∈ l := by
  induction l with
  | nil => exact absurd h (by simp)
  | cons b l ih =>
    cases l with
    | nil => exact .inr h
    | cons c l =>
      rw [List.intersperse_cons_cons] at h
      rcases List.mem_cons.mp h with rfl | h
      · exact .inr (List.mem_cons_self ..)
      · rcases List.mem_cons.mp h with rfl | h
        · exact .inl rfl
        · exact (ih h).imp_right (List.mem_cons_of_mem b)

private theorem sought_words_of {l : List Phrase} (hne : l ≠ []) (h : ∀ a ∈ l, a.Sought f) :
    Sought f (.all (.boundary :: l.intersperse .gap ++ [.boundary])) := by
  obtain ⟨a, l, rfl⟩ := List.exists_cons_of_ne_nil hne
  obtain ⟨rest, hrest⟩ : ∃ rest, (a :: l).intersperse gap = a :: rest := by
    cases l with
    | nil => exact ⟨[], rfl⟩
    | cons b l => exact ⟨_, List.intersperse_cons_cons ..⟩
  have hsteady : ∀ b ∈ rest, b.Steady f := by
    intro b hb
    have hmem : b ∈ (a :: l).intersperse gap := by
      rw [hrest]
      exact List.mem_cons_of_mem a hb
    rcases mem_intersperse hmem with rfl | hmem
    · exact steady_gap
    · exact (h b hmem).steady
  rw [hrest]
  change Sought f (.all ([boundary] ++ a :: (rest ++ [boundary])))
  apply sought_all [boundary] (rest ++ [boundary])
  · intro b hb
    obtain rfl := List.mem_singleton.mp hb
    exact waits_boundary
  · intro b hb
    simp only [List.mem_append, List.mem_singleton] at hb
    rcases hb with rfl | hb | rfl
    · exact steady_boundary
    · exact hsteady b hb
    · exact steady_boundary
  · exact h a (List.mem_cons_self ..)

/-- Whether words can be keywords one after the other: there is one, and each can be a keyword. -/
def AreKeywords (keywords : List String) : Prop :=
  keywords ≠ [] ∧ ∀ k ∈ keywords, IsKeyword k

/-- Whether words are keywords is told from their characters. -/
instance : DecidablePred AreKeywords := fun keywords =>
  @instDecidableAnd _ _ inferInstance (List.decidableBAll IsKeyword keywords)

/-- Whole words are sought in any case. -/
theorem sought_words {keywords : List String} (h : AreKeywords keywords) :
    Sought f (words keywords) := by
  apply sought_words_of (by simpa using h.1)
  intro a ha
  obtain ⟨k, hk, rfl⟩ := List.mem_map.mp ha
  exact sought_letters (h.2 k hk)

/-- Whole words are sought as they stand where letters are not folded. -/
theorem sought_exactWords {keywords : List String} (h : AreKeywords keywords) :
    Sought .none (exactWords keywords) := by
  apply sought_words_of (by simpa using h.1)
  intro a ha
  obtain ⟨k, hk, rfl⟩ := List.mem_map.mp ha
  exact sought_exactly (h.2 k hk)

end SqlReview.Search.Phrase

import SqlReview.Proofs.Text.Tidy
import SqlReview.Search.Phrase

/-!
# Searches in a tidy text

A phrase is steady when it is read from a tidy text as from the text itself. Solid characters,
gaps, boundaries and what is put together from them are steady. A search for a steady phrase that
begins at no blank and takes something finds in the tidy text what it finds in the text, tidied.
-/

namespace SqlReview.Search

open SqlReview.Text

/-- A place of a text in the tidy text. -/
def Place.tidy (f : Folding) (p : Place) : Place :=
  ⟨p.before.map (tidyChar f), Text.tidy f p.rest⟩

/-- An occurrence in the tidy text. -/
def Occurrence.tidy (f : Folding) (o : Occurrence) : Occurrence :=
  ⟨o.start.tidy f, o.stop.tidy f⟩

namespace Phrase

/-! ### Steady phrases -/

/-- Whether a phrase ends in the tidy text at the place where it ends in the text. -/
def Steady (f : Folding) (a : Phrase) : Prop :=
  ∀ p : Place, a.read (p.tidy f) = (a.read p).map (Place.tidy f)

variable {f : Folding} {a b : Phrase} {cls : Char → Bool}

/-- One character of a solid class is steady. -/
theorem steady_one (h : Solid f cls) : Steady f (.one cls) := by
  intro p
  obtain ⟨before, rest⟩ := p
  cases rest with
  | nil => rfl
  | cons c s =>
    by_cases hb : isBlank c = true
    · simp [Place.tidy, tidy_blank_cons f hb, h.blank c hb, h.blank ' ' rfl]
    · have hsolid : isBlank c = false := by simpa using hb
      by_cases hc : cls c = true
      · simp [Place.tidy, tidy_cons f hsolid, h.fold, hc, tidyChar, hsolid]
      · simp [Place.tidy, tidy_cons f hsolid, h.fold, hc]

private theorem map_getLast?_takeWhile (h : ∀ c, cls c = true → tidyChar f c = f.of c)
    (s : List Char) :
    ((s.takeWhile cls).map f.of).getLast? = (s.takeWhile cls).getLast?.map (tidyChar f) := by
  rw [List.getLast?_map]
  cases hl : (s.takeWhile cls).getLast? with
  | none => rfl
  | some c =>
    have hcls : cls c = true := List.all_eq_true.mp List.all_takeWhile c (List.mem_of_getLast? hl)
    rw [Option.map_some, Option.map_some, h c hcls]

/-- A run of a solid class is steady. -/
theorem steady_run (h : Solid f cls) : Steady f (.run cls) := by
  intro p
  have hchar : ∀ c, cls c = true → tidyChar f c = f.of c := by
    intro c hc
    have hsolid : ¬ isBlank c = true := by
      intro hb
      rw [h.blank c hb] at hc
      exact Bool.false_ne_true hc
    rw [tidyChar, if_neg hsolid]
  simp only [read_run, Place.skipWhile, Place.tidy, takeWhile_tidy f h, dropWhile_tidy f h,
    map_getLast?_takeWhile hchar, Option.map_some]
  cases (p.rest.takeWhile cls).getLast? <;> rfl

/-- The place after the blanks that stand at a place. -/
theorem skipWhile_isBlank_tidy (p : Place) :
    (p.tidy f).skipWhile isBlank = (p.skipWhile isBlank).tidy f := by
  have hdrop := trimStart_tidy f p.rest
  unfold trimStart at hdrop
  simp only [Place.skipWhile, Place.tidy, hdrop, takeWhile_isBlank_tidy]
  by_cases hs : startsBlank p.rest = true
  · have hne : p.rest.takeWhile isBlank ≠ [] := by
      obtain ⟨c, t, ht, hc⟩ := exists_of_startsBlank hs
      rw [ht, List.takeWhile_cons_of_pos hc]
      exact List.cons_ne_nil c _
    have hblank : isBlank ((p.rest.takeWhile isBlank).getLast hne) = true :=
      List.all_eq_true.mp List.all_takeWhile _ (List.getLast_mem hne)
    rw [if_pos hs, List.getLast?_eq_some_getLast hne]
    simp [tidyChar, hblank]
  · rw [if_neg hs, takeWhile_isBlank_of_startsBlank (by simpa using hs)]
    rfl

/-- Any number of blanks is steady. -/
theorem steady_blanks : Steady f .blanks := by
  intro p
  rw [blanks, read_run, read_run, skipWhile_isBlank_tidy, Option.map_some]

/-- One character or more is the run of characters at a place where there is any. -/
theorem read_atLeastOne (cls : Char → Bool) (p : Place) :
    (atLeastOne cls).read p = if p.rest.head?.any cls then some (p.skipWhile cls) else none := by
  obtain ⟨before, rest⟩ := p
  cases rest with
  | nil => rfl
  | cons c s =>
    by_cases hc : cls c = true
    · have hlast : ((c :: s.takeWhile cls).getLast?.or before) =
          (s.takeWhile cls).getLast?.or (some c) := by
        rw [List.getLast?_cons]
        cases (s.takeWhile cls).getLast? <;> rfl
      simp [atLeastOne, Place.skipWhile, hc, ← hlast]
    · simp [atLeastOne, hc]

/-- A gap is the blanks at a place where there are any. -/
theorem read_gap (p : Place) :
    gap.read p = if startsBlank p.rest then some (p.skipWhile isBlank) else none :=
  read_atLeastOne isBlank p

/-- A gap is steady. -/
theorem steady_gap : Steady f .gap := by
  intro p
  rw [read_gap, read_gap, skipWhile_isBlank_tidy]
  have hs : startsBlank (p.tidy f).rest = startsBlank p.rest := startsBlank_tidy f p.rest
  rw [hs]
  split <;> rfl

/-- The beginning or end of a word is steady. -/
theorem steady_boundary : Steady f .boundary := by
  intro p
  have hword : ∀ c, isWordChar (tidyChar f c) = isWordChar c := (solid_isWordChar f).tidyChar
  have hat : (p.tidy f).atBoundary = p.atBoundary := by
    have hrest := any_head?_tidy f hword p.rest
    have hbefore : (p.before.map (tidyChar f)).any isWordChar = p.before.any isWordChar := by
      cases p.before with
      | none => rfl
      | some c => exact hword c
    simp only [Place.atBoundary, Place.tidy, hrest, hbefore]
  rw [read_boundary, read_boundary, hat]
  split <;> rfl

/-- Two phrases one after the other are steady when both are. -/
theorem Steady.seq (ha : Steady f a) (hb : Steady f b) : Steady f (.seq a b) := by
  intro p
  rw [read_seq, read_seq, ha p]
  cases a.read p with
  | none => rfl
  | some q => exact hb q

/-- An optional part is steady when the part is. -/
theorem Steady.opt (ha : Steady f a) : Steady f (.opt a) := by
  intro p
  rw [read_opt, read_opt, ha p]
  cases a.read p <;> rfl

/-- The first of two phrases that is there is steady when both are. -/
theorem Steady.either (ha : Steady f a) (hb : Steady f b) : Steady f (.either a b) := by
  intro p
  rw [read_either, read_either, ha p, hb p]
  cases a.read p <;> rfl

/-- Phrases one after the other are steady when all are. -/
theorem steady_all {l : List Phrase} (h : ∀ a ∈ l, Steady f a) : Steady f (.all l) :=
  all_of (steady_run ⟨fun _ => rfl, fun _ _ => rfl⟩) Steady.seq h

/-- The first of several phrases that is there is steady when all are. -/
theorem steady_any {l : List Phrase} (h : ∀ a ∈ l, Steady f a) : Steady f (.any l) :=
  any_of (steady_one ⟨fun _ => rfl, fun _ _ => rfl⟩) Steady.either h

/-! ### Phrases that begin at no blank -/

/-- Whether a phrase is nowhere read where a blank stands. -/
def Refuses (a : Phrase) : Prop :=
  ∀ p : Place, startsBlank p.rest = true → a.read p = none

/-- Whether a phrase takes nothing where a blank stands. -/
def Waits (a : Phrase) : Prop :=
  ∀ p q : Place, startsBlank p.rest = true → a.read p = some q → q = p

/-- A phrase that is not read at a blank takes nothing there. -/
theorem Refuses.waits (h : Refuses a) : Waits a := by
  intro p q hp hq
  rw [h p hp] at hq
  exact absurd hq (by simp)

/-- One character that is no blank is not read at one. -/
theorem refuses_one (h : ∀ c, isBlank c = true → cls c = false) : Refuses (.one cls) := by
  intro p hp
  obtain ⟨before, rest⟩ := p
  obtain ⟨c, s, rfl, hc⟩ := exists_of_startsBlank hp
  simp [h c hc]

/-- The beginning or end of a word takes nothing at a blank. -/
theorem waits_boundary : Waits .boundary := by
  intro p q _ hq
  rw [read_boundary] at hq
  split at hq
  · exact (Option.some.inj hq).symm
  · exact absurd hq (by simp)

/-- Two phrases one after the other are not read at a blank when the first is not. -/
theorem Refuses.seq (ha : Refuses a) : Refuses (.seq a b) := by
  intro p hp
  rw [read_seq, ha p hp]
  rfl

/-- A phrase that waits leaves the blank to the one behind it. -/
theorem Waits.seq (ha : Waits a) (hb : Refuses b) : Refuses (.seq a b) := by
  intro p hp
  rw [read_seq]
  cases hq : a.read p with
  | none => rfl
  | some q =>
    rw [ha p q hp hq]
    exact hb p hp

/-- An optional part waits when the part does. -/
theorem Waits.opt (ha : Waits a) : Waits (.opt a) := by
  intro p q hp hq
  rw [read_opt] at hq
  obtain rfl := Option.some.inj hq
  cases hq : a.read p with
  | none => rfl
  | some r => exact ha p r hp hq

/-- The first of two phrases that is there is not read at a blank when neither is. -/
theorem Refuses.either (ha : Refuses a) (hb : Refuses b) : Refuses (.either a b) := by
  intro p hp
  rw [read_either, ha p hp, hb p hp]
  rfl

/-- Phrases one after the other begin as the first one does. -/
theorem Refuses.all (h : Refuses a) (l : List Phrase) : Refuses (.all (a :: l)) :=
  all_cons_of Refuses.seq h l

/-- A phrase that waits leaves the beginning to the next one. -/
theorem Waits.all (ha : Waits a) {l : List Phrase} (hl : l ≠ []) (h : Refuses (.all l)) :
    Refuses (.all (a :: l)) := by
  cases l with
  | nil => exact absurd rfl hl
  | cons b l => exact ha.seq h

/-- The first of several phrases that is there is not read at a blank when none of them is. -/
theorem refuses_any {l : List Phrase} (h : ∀ a ∈ l, Refuses a) : Refuses (.any l) :=
  any_of (refuses_one fun _ _ => rfl) Refuses.either h

/-! ### Phrases that take something -/

/-- Whether a phrase takes at least one character. -/
def Moves (a : Phrase) : Prop :=
  ∀ p q : Place, a.read p = some q → q.rest.length < p.rest.length

/-- A phrase ends in the text that it begins in. -/
theorem suffix_read {a : Phrase} {p q : Place} (h : a.read p = some q) : q.rest <:+ p.rest := by
  induction a generalizing p q with
  | one cls =>
    obtain ⟨before, rest⟩ := p
    cases rest with
    | nil => exact absurd h (by simp)
    | cons c s =>
      rw [read_one_cons] at h
      split at h
      · obtain rfl := Option.some.inj h
        exact List.suffix_cons c s
      · exact absurd h (by simp)
  | run cls =>
    obtain rfl := Option.some.inj h
    exact List.dropWhile_suffix cls
  | boundary =>
    rw [read_boundary] at h
    split at h
    · obtain rfl := Option.some.inj h
      exact List.suffix_refl _
    · exact absurd h (by simp)
  | seq a b iha ihb =>
    rw [read_seq] at h
    obtain ⟨r, hr, hq⟩ := Option.bind_eq_some_iff.mp h
    exact (ihb hq).trans (iha hr)
  | opt a iha =>
    rw [read_opt] at h
    obtain rfl := Option.some.inj h
    cases hr : a.read p with
    | none => exact List.suffix_refl _
    | some r => exact iha hr
  | either a b iha ihb =>
    rw [read_either] at h
    rcases Option.or_eq_some_iff.mp h with hq | ⟨-, hq⟩
    · exact iha hq
    · exact ihb hq

/-- No phrase goes back. -/
theorem length_read {p q : Place} (h : a.read p = some q) : q.rest.length ≤ p.rest.length :=
  (suffix_read h).length_le

/-- One character is taken where it is read. -/
theorem moves_one : Moves (.one cls) := by
  intro p q h
  obtain ⟨before, rest⟩ := p
  cases rest with
  | nil => exact absurd h (by simp)
  | cons c s =>
    rw [read_one_cons] at h
    split at h
    · obtain rfl := Option.some.inj h
      exact Nat.lt_succ_self _
    · exact absurd h (by simp)

/-- Two phrases one after the other take something when the first does. -/
theorem Moves.seq_left (ha : Moves a) : Moves (.seq a b) := by
  intro p q h
  rw [read_seq] at h
  obtain ⟨r, hr, hq⟩ := Option.bind_eq_some_iff.mp h
  exact Nat.lt_of_le_of_lt (length_read hq) (ha p r hr)

/-- Two phrases one after the other take something when the second does. -/
theorem Moves.seq_right (hb : Moves b) : Moves (.seq a b) := by
  intro p q h
  rw [read_seq] at h
  obtain ⟨r, hr, hq⟩ := Option.bind_eq_some_iff.mp h
  exact Nat.lt_of_lt_of_le (hb r q hq) (length_read hr)

/-- The first of two phrases that is there takes something when both do. -/
theorem Moves.either (ha : Moves a) (hb : Moves b) : Moves (.either a b) := by
  intro p q h
  rw [read_either] at h
  rcases Option.or_eq_some_iff.mp h with hq | ⟨-, hq⟩
  · exact ha p q hq
  · exact hb p q hq

/-- Of phrases one after the other it is enough that one of them takes something. -/
theorem moves_all {l : List Phrase} (ha : Moves a) (h : a ∈ l) : Moves (.all l) := by
  induction l with
  | nil => exact absurd h (by simp)
  | cons b l ih =>
    cases l with
    | nil =>
      obtain rfl := List.mem_singleton.mp h
      exact ha
    | cons c l =>
      rcases List.mem_cons.mp h with rfl | h
      · exact ha.seq_left
      · exact (ih h).seq_right

/-- The first of several phrases that is there takes something when all do. -/
theorem moves_any {l : List Phrase} (h : ∀ a ∈ l, Moves a) : Moves (.any l) :=
  any_of moves_one Moves.either h

end Phrase

/-! ### Occurrences -/

/-- A phrase whose occurrences a tidy text shows as they are. -/
structure Phrase.Sought (f : Folding) (a : Phrase) : Prop where
  steady : a.Steady f
  refuses : a.Refuses
  moves : a.Moves

variable {f : Folding} {a : Phrase}

/-- A search goes on where an occurrence ends. -/
theorem occurrencesFrom_of_read (h : a.Moves) {before : Option Char} {c : Char} {s : List Char}
    {q : Place} (hq : a.read ⟨before, c :: s⟩ = some q) :
    occurrencesFrom a before (c :: s) =
      ⟨⟨before, c :: s⟩, q⟩ :: occurrencesFrom a q.before q.rest := by
  have hlength : q.rest.length < (c :: s).length := h _ q hq
  rw [List.length_cons] at hlength
  rw [occurrencesFrom, hq]
  exact if_pos (Nat.le_of_lt_succ hlength)

/-- A search goes on with the next character where its phrase is not read. -/
theorem occurrencesFrom_of_read_eq_none {before : Option Char} {c : Char} {s : List Char}
    (hq : a.read ⟨before, c :: s⟩ = none) :
    occurrencesFrom a before (c :: s) = occurrencesFrom a (some c) s := by
  rw [occurrencesFrom, hq]

/-- A text is searched from occurrence to occurrence, and one character further where nothing is
found. -/
@[elab_as_elim]
theorem Phrase.Moves.search_induction (h : a.Moves) {motive : Option Char → List Char → Prop}
    (nil : ∀ before, motive before [])
    (found : ∀ before c s q, a.read ⟨before, c :: s⟩ = some q → motive q.before q.rest →
      motive before (c :: s))
    (passed : ∀ before c s, a.read ⟨before, c :: s⟩ = none → motive (some c) s →
      motive before (c :: s))
    (before : Option Char) (s : List Char) : motive before s := by
  induction hn : s.length using Nat.strongRecOn generalizing before s with
  | ind n ih =>
    cases s with
    | nil => exact nil before
    | cons c s =>
      cases hq : a.read ⟨before, c :: s⟩ with
      | none =>
        refine passed before c s hq (ih s.length ?_ (some c) s rfl)
        rw [← hn]
        exact Nat.lt_succ_self _
      | some q =>
        refine found before c s q hq (ih q.rest.length ?_ q.before q.rest rfl)
        rw [← hn]
        exact h _ q hq

/-- A search does not stop at a blank. -/
theorem occurrencesFrom_blank (h : a.Refuses) {c : Char} (hc : isBlank c = true)
    (before : Option Char) (s : List Char) :
    occurrencesFrom a before (c :: s) = occurrencesFrom a (some c) s :=
  occurrencesFrom_of_read_eq_none (h ⟨before, c :: s⟩ (by simpa [startsBlank] using hc))

/-- Which character stands before a blank is of no concern to a search. -/
theorem occurrencesFrom_before (h : a.Refuses) {s : List Char} (hs : startsBlank s = true)
    (before before' : Option Char) : occurrencesFrom a before s = occurrencesFrom a before' s := by
  obtain ⟨c, t, rfl, hc⟩ := exists_of_startsBlank hs
  rw [occurrencesFrom_blank h hc, occurrencesFrom_blank h hc]

/-- A search in a tidy text finds what it finds in the text, tidied. -/
theorem occurrencesFrom_tidy (h : a.Sought f) (before : Option Char) (s : List Char) :
    occurrencesFrom a (before.map (tidyChar f)) (tidy f s) =
      (occurrencesFrom a before s).map (Occurrence.tidy f) := by
  induction before, s using h.moves.search_induction with
  | nil before => simp
  | found before c s q hq ih =>
    have hsolid : isBlank c = false := by
      rw [← Bool.not_eq_true]
      intro hc
      exact absurd ((h.refuses ⟨before, c :: s⟩ (by simpa [startsBlank] using hc)).symm.trans hq)
        (by simp)
    have hread := h.steady ⟨before, c :: s⟩
    simp only [Place.tidy, tidy_cons f hsolid, hq, Option.map_some] at hread
    rw [tidy_cons f hsolid, occurrencesFrom_of_read h.moves hread,
      occurrencesFrom_of_read h.moves hq, List.map_cons, ← ih]
    simp only [Occurrence.tidy, Place.tidy, tidy_cons f hsolid]
  | passed before c s hq ih =>
    by_cases hc : isBlank c = true
    · rw [occurrencesFrom_of_read_eq_none hq, ← ih]
      by_cases hnext : startsBlank s = true
      · rw [tidy_blank_of_startsBlank f hc hnext]
        exact occurrencesFrom_before h.refuses (by rwa [startsBlank_tidy]) _ _
      · have hchar : some ' ' = (some c).map (tidyChar f) := by simp [tidyChar, hc]
        rw [tidy_blank f hc (by simpa using hnext), occurrencesFrom_blank h.refuses rfl, hchar]
    · have hsolid : isBlank c = false := by simpa using hc
      have hchar : some (f.of c) = (some c).map (tidyChar f) := by simp [tidyChar, hc]
      have hread := h.steady ⟨before, c :: s⟩
      simp only [Place.tidy, tidy_cons f hsolid, hq, Option.map_none] at hread
      rw [tidy_cons f hsolid, occurrencesFrom_of_read_eq_none hread,
        occurrencesFrom_of_read_eq_none hq, hchar, ih]

/-- The occurrences in a tidy text are those in the text, tidied. -/
theorem occurrences_tidy (h : a.Sought f) (s : List Char) :
    occurrences a (tidy f s) = (occurrences a s).map (Occurrence.tidy f) :=
  occurrencesFrom_tidy h none s

/-- The first occurrence in a tidy text is that in the text, tidied. -/
theorem find?_tidy (h : a.Sought f) (s : List Char) :
    find? a (tidy f s) = (find? a s).map (Occurrence.tidy f) := by
  rw [find?, find?, occurrences_tidy h, List.head?_map]

/-- A tidy text holds a sought phrase where the text does. -/
theorem holds_tidy (h : a.Sought f) (s : List Char) : holds a (tidy f s) = holds a s := by
  rw [holds, holds, find?_tidy h, Option.isSome_map]

/-- A tidy text holds a sought phrase as often as the text. -/
theorem count_tidy (h : a.Sought f) (s : List Char) : count a (tidy f s) = count a s := by
  rw [count, count, occurrences_tidy h, List.length_map]

end SqlReview.Search

import Mathlib.Data.List.Forall2
import SqlReview.Proofs.Search.Keyword
import SqlReview.Proofs.Search.Occurrence
import SqlReview.Proofs.Search.Word
import SqlReview.Proofs.Text.Loosened

/-!
# Searches in a loosened text

A space before a parenthesis is of no concern to a search for words, for gaps between words and for
a parenthesis behind blanks. A gap may be read in the loosened text alone, when it is the space
before a parenthesis, but then no word follows it.
-/

namespace SqlReview.Search

open SqlReview.Text

/-- Whether a place of a text and a place of the loosened text are the same. -/
structure Place.Loosened (p q : Place) : Prop where
  before : p.before = q.before
  rest : Text.Loosened p.rest q.rest

/-- Behind a run that holds no parenthesis and no space the places are the same. -/
theorem Place.Loosened.skipWhile {p q : Place} (h : p.Loosened q) {cls : Char → Bool}
    (hopen : cls '(' = false) (hspace : cls ' ' = false) :
    (p.skipWhile cls).Loosened (q.skipWhile cls) where
  before := by
    rw [Place.skipWhile, Place.skipWhile, h.before, h.rest.takeWhile_eq hopen hspace]
  rest := (h.rest.span (hopen.trans hspace.symm)).2

/-- Whether a reading fails or comes to a parenthesis. -/
def StopsAtOpening (read : Option Place) : Prop :=
  ∀ p, read = some p → p.rest.head? = some '('

namespace Phrase

/-! ### Loose phrases -/

/-- Whether a phrase ends in the loosened text where it ends in the text. -/
def Loose (a : Phrase) : Prop :=
  ∀ p q : Place, p.Loosened q → Option.Rel Place.Loosened (a.read p) (a.read q)

/-- Whether a phrase is nowhere read where a blank or an opening parenthesis stands. -/
structure Shuns (a : Phrase) : Prop where
  blank : a.Refuses
  opening : ∀ p : Place, p.rest.head? = some '(' → a.read p = none

variable {a b : Phrase} {cls : Char → Bool} {p q : Place}

/-- One character that is neither a parenthesis nor a space is loose. -/
theorem loose_one (hopen : cls '(' = false) (hspace : cls ' ' = false) : Loose (.one cls) := by
  intro p q h
  obtain ⟨before, s⟩ := p
  obtain ⟨before', t⟩ := q
  have hrest : Text.Loosened s t := h.rest
  cases hrest with
  | nil => exact .none
  | cons c hst =>
    rw [read_one_cons, read_one_cons]
    split
    · exact .some ⟨rfl, hst⟩
    · exact .none
  | space hst =>
    rw [read_one_cons, read_one_cons, hopen, hspace]
    exact .none

/-- A run without parentheses and spaces is loose. -/
theorem loose_run (hopen : cls '(' = false) (hspace : cls ' ' = false) : Loose (.run cls) :=
  fun _ _ h => .some (h.skipWhile hopen hspace)

/-- The beginning or end of a word is loose. -/
theorem loose_boundary : Loose .boundary := by
  intro p q h
  have hat : p.atBoundary = q.atBoundary := by
    rw [Place.atBoundary, Place.atBoundary, h.before,
      h.rest.head?_any (by decide : isWordChar '(' = isWordChar ' ')]
  rw [read_boundary, read_boundary, hat]
  split
  · exact .some h
  · exact .none

/-- Two phrases one after the other are loose when both are. -/
theorem Loose.seq (ha : Loose a) (hb : Loose b) : Loose (.seq a b) := by
  intro p q h
  have hread := ha p q h
  rw [read_seq, read_seq]
  generalize a.read p = x at hread ⊢
  generalize a.read q = y at hread ⊢
  cases hread with
  | none => exact .none
  | some hr => exact hb _ _ hr

/-- An optional part is loose when the part is. -/
theorem Loose.opt (ha : Loose a) : Loose (.opt a) := by
  intro p q h
  have hread := ha p q h
  rw [read_opt, read_opt]
  generalize a.read p = x at hread ⊢
  generalize a.read q = y at hread ⊢
  cases hread with
  | none => exact .some h
  | some hr => exact .some hr

/-- The first of two phrases that is there is loose when both are. -/
theorem Loose.either (ha : Loose a) (hb : Loose b) : Loose (.either a b) := by
  intro p q h
  have hread := ha p q h
  rw [read_either, read_either]
  generalize a.read p = x at hread ⊢
  generalize a.read q = y at hread ⊢
  cases hread with
  | none => exact hb p q h
  | some hr => exact .some hr

/-- Phrases one after the other are loose when all are. -/
theorem loose_all {l : List Phrase} (h : ∀ a ∈ l, Loose a) : Loose (.all l) :=
  all_of (loose_run rfl rfl) Loose.seq h

/-- The first of several phrases that is there is loose when all are. -/
theorem loose_any {l : List Phrase} (h : ∀ a ∈ l, Loose a) : Loose (.any l) :=
  any_of (loose_one rfl rfl) Loose.either h

/-! ### Phrases that shun parentheses -/

/-- One character that is neither a blank nor a parenthesis shuns both. -/
theorem shuns_one (hblank : ∀ c, isBlank c = true → cls c = false) (hopen : cls '(' = false) :
    Shuns (.one cls) where
  blank := refuses_one hblank
  opening p h := by
    obtain ⟨before, s⟩ := p
    cases s with
    | nil => rfl
    | cons c s =>
      obtain rfl : c = '(' := Option.some.inj h
      rw [read_one_cons, hopen, if_neg Bool.false_ne_true]

/-- Two phrases one after the other shun what the first shuns. -/
theorem Shuns.seq (ha : Shuns a) : Shuns (.seq a b) where
  blank := ha.blank.seq
  opening p h := by
    rw [read_seq, ha.opening p h]
    rfl

/-- The first of two phrases that is there shuns what both shun. -/
theorem Shuns.either (ha : Shuns a) (hb : Shuns b) : Shuns (.either a b) where
  blank := ha.blank.either hb.blank
  opening p h := by
    rw [read_either, ha.opening p h, hb.opening p h]
    rfl

/-- The beginning or end of a word leaves the shunning to what follows. -/
theorem Shuns.boundary (ha : Shuns a) : Shuns (.seq .boundary a) where
  blank := waits_boundary.seq ha.blank
  opening p h := by
    rw [read_seq, read_boundary]
    split
    · exact ha.opening p h
    · rfl

/-- Phrases one after the other begin as the first one does. -/
theorem Shuns.all (ha : Shuns a) (l : List Phrase) : Shuns (.all (a :: l)) :=
  all_cons_of Shuns.seq ha l

/-- The first of several phrases that is there shuns what all shun. -/
theorem shuns_any {l : List Phrase} (h : ∀ a ∈ l, Shuns a) : Shuns (.any l) :=
  any_of (shuns_one (fun _ _ => rfl) rfl) Shuns.either h

/-! ### Blanks and gaps -/

/-- The blanks at a place are skipped. -/
theorem skipWhile_isBlank_append {v x : List Char} (hv : isBlankText v = true)
    (hx : startsBlank x = false) (before : Option Char) :
    Place.skipWhile isBlank ⟨before, v ++ x⟩ = ⟨v.getLast?.or before, x⟩ := by
  obtain ⟨htake, hdrop⟩ := span_of_head? (List.all_eq_true.mp hv) hx
  rw [Place.skipWhile, htake, hdrop]

/-- A gap is read in the loosened text where it is read in the text, except before a
parenthesis. -/
theorem rel_read_gap (h : p.Loosened q) :
    Option.Rel Place.Loosened (gap.read p) (gap.read q) ∨
      StopsAtOpening (gap.read p) ∧ StopsAtOpening (gap.read q) := by
  obtain ⟨before, s⟩ := p
  obtain ⟨before', t⟩ := q
  obtain rfl : before = before' := h.before
  have hrest : Text.Loosened s t := h.rest
  obtain ⟨v, x, hv, rfl, hx, ⟨y, rfl, hy, hxy⟩ | ⟨x', y', rfl, rfl, hxy⟩⟩ := hrest.exists_blanks
  · apply Or.inl
    have hblank : startsBlank (v ++ x) = startsBlank (v ++ y) := by
      cases v with
      | nil => exact hx.trans hy.symm
      | cons c v => rfl
    rw [read_gap, read_gap, skipWhile_isBlank_append hv hx, skipWhile_isBlank_append hv hy]
    dsimp only
    rw [hblank]
    split
    · exact .some ⟨rfl, hxy⟩
    · exact .none
  · have hstops : ∀ w y : List Char, isBlankText w = true →
        StopsAtOpening (gap.read ⟨before, w ++ '(' :: y⟩) := by
      intro w y hw r hr
      rw [read_gap, skipWhile_isBlank_append hw (Loosened.startsBlank_opening y)] at hr
      split at hr
      · obtain rfl := Option.some.inj hr
        rfl
      · exact absurd hr (by simp)
    have hspace : v ++ ' ' :: '(' :: y' = (v ++ [' ']) ++ '(' :: y' := by simp
    refine .inr ⟨hstops v x' hv, ?_⟩
    rw [hspace]
    apply hstops
    rw [isBlankText, List.all_append, ← isBlankText, hv]
    rfl

/-- A gap before a phrase that shuns parentheses. -/
theorem loose_gap_seq (hb : Loose b) (hshuns : Shuns b) : Loose (.seq .gap b) := by
  intro p q h
  rw [read_seq, read_seq]
  rcases rel_read_gap h with hread | ⟨hp, hq⟩
  · generalize gap.read p = x at hread ⊢
    generalize gap.read q = y at hread ⊢
    cases hread with
    | none => exact .none
    | some hr => exact hb _ _ hr
  · have hnone : ∀ x, StopsAtOpening x → x.bind b.read = none := by
      intro x hx
      cases x with
      | none => rfl
      | some r => exact hshuns.opening r (hx r rfl)
    rw [hnone _ hp, hnone _ hq]
    exact .none

/-- A parenthesis behind blanks. -/
theorem loose_blanks_opening : Loose (.seq .blanks (.one (· == '('))) := by
  intro p q h
  obtain ⟨before, s⟩ := p
  obtain ⟨before', t⟩ := q
  obtain rfl : before = before' := h.before
  have hrest : Text.Loosened s t := h.rest
  have hread : ∀ (w y : List Char), isBlankText w = true → startsBlank y = false →
      (Phrase.seq .blanks (.one (· == '('))).read ⟨before, w ++ y⟩ =
        (Phrase.one (· == '(')).read ⟨w.getLast?.or before, y⟩ := by
    intro w y hw hy
    rw [read_seq, blanks, read_run, skipWhile_isBlank_append hw hy, Option.bind_some]
  obtain ⟨v, x, hv, rfl, hx, ⟨y, rfl, hy, hxy⟩ | ⟨x', y', rfl, rfl, hxy⟩⟩ := hrest.exists_blanks
  · rw [hread v x hv hx, hread v y hv hy]
    cases hxy with
    | nil => exact .none
    | cons c hst =>
      rw [read_one_cons, read_one_cons]
      split
      · exact .some ⟨rfl, hst⟩
      · exact .none
    | @space s t hst => exact absurd (show isBlank ' ' = false from hy) (by decide)
  · have hspace : v ++ ' ' :: '(' :: y' = (v ++ [' ']) ++ '(' :: y' := by simp
    have hv' : isBlankText (v ++ [' ']) = true := by
      rw [isBlankText, List.all_append, ← isBlankText, hv]
      rfl
    rw [hspace, hread v _ hv (Loosened.startsBlank_opening x'),
      hread _ _ hv' (Loosened.startsBlank_opening y')]
    exact .some ⟨rfl, hxy⟩

/-! ### Keywords -/

/-- Whether a keyword holds no opening parenthesis. -/
def IsUnopened (keyword : String) : Prop :=
  IsKeyword keyword ∧ '(' ∉ keyword.toList

/-- Whether a keyword is unopened is told from its characters. -/
instance : DecidablePred IsUnopened := fun _ => inferInstanceAs (Decidable (_ ∧ _))

private theorem foldsTo_opening {k : Char} (hk : k ≠ '(') : foldsTo k '(' = false := by
  have hletter : sameLetter k '(' = false := by
    rw [Bool.eq_false_iff]
    intro h
    have hsame := eq_of_sameLetter (f := (· == '(')) (by decide) h
    exact hk (by simpa using hsame)
  rw [foldsTo, hletter]
  simp

variable {keyword : String}

/-- The letters of a keyword without parentheses are loose. -/
theorem loose_letters (h : IsUnopened keyword) : Loose (letters keyword) := by
  apply loose_all
  intro a ha
  obtain ⟨k, hk, rfl⟩ := List.mem_map.mp ha
  have hne : k ≠ '(' := fun hopen => h.2 (hopen ▸ hk)
  exact loose_one (foldsTo_opening hne) ((solid_foldsTo (f := .none) (h.1.2 k hk)).blank ' ' rfl)

/-- The letters of a keyword without parentheses shun parentheses and blanks. -/
theorem shuns_letters (h : IsUnopened keyword) : Shuns (letters keyword) := by
  obtain ⟨k, ks, hks⟩ := List.exists_cons_of_ne_nil h.1.1
  have hk : k ∈ keyword.toList := by
    rw [hks]
    exact List.mem_cons_self ..
  have hne : k ≠ '(' := fun hopen => h.2 (hopen ▸ hk)
  rw [letters, hks, List.map_cons]
  exact (shuns_one (solid_foldsTo (f := .none) (h.1.2 k hk)).blank (foldsTo_opening hne)).all _

private theorem loose_intersperse {l : List Phrase} (hne : l ≠ [])
    (h : ∀ a ∈ l, Loose a ∧ Shuns a) :
    Loose (.all (l.intersperse .gap ++ [.boundary])) ∧
      Shuns (.all (l.intersperse .gap ++ [.boundary])) := by
  induction l with
  | nil => exact absurd rfl hne
  | cons a l ih =>
    obtain ⟨ha, hshuns⟩ := h a (List.mem_cons_self ..)
    cases l with
    | nil => exact ⟨ha.seq loose_boundary, hshuns.seq⟩
    | cons b l =>
      obtain ⟨hrest, hrestShuns⟩ := ih (List.cons_ne_nil b l) fun c hc =>
        h c (List.mem_cons_of_mem a hc)
      obtain ⟨c, rest, hcons⟩ : ∃ c rest,
          (b :: l).intersperse gap ++ [boundary] = c :: rest :=
        List.exists_cons_of_ne_nil (by simp)
      rw [List.intersperse_cons_cons, List.cons_append, List.cons_append, hcons]
      rw [hcons] at hrest hrestShuns
      exact ⟨ha.seq (loose_gap_seq hrest hrestShuns), hshuns.seq⟩

variable {keywords : List String}

/-- Whole words are read in the loosened text. -/
theorem loose_words (hne : keywords ≠ []) (h : ∀ k ∈ keywords, IsUnopened k) :
    Loose (words keywords) ∧ Shuns (words keywords) := by
  have hletters : ∀ a ∈ keywords.map letters, Loose a ∧ Shuns a := by
    intro a ha
    obtain ⟨k, hk, rfl⟩ := List.mem_map.mp ha
    exact ⟨loose_letters (h k hk), shuns_letters (h k hk)⟩
  obtain ⟨hloose, hshuns⟩ := loose_intersperse (by simpa using hne) hletters
  obtain ⟨c, rest, hcons⟩ : ∃ c rest,
      (keywords.map letters).intersperse gap ++ [boundary] = c :: rest :=
    List.exists_cons_of_ne_nil (by simp)
  rw [hcons] at hloose hshuns
  rw [words, List.cons_append, hcons]
  exact ⟨loose_boundary.seq hloose, hshuns.boundary⟩

end Phrase

/-! ### Occurrences -/

/-- Whether two occurrences of a phrase, one in a text and one in the loosened text, are the
same. -/
structure Occurrence.Loosened (a : Phrase) (o o' : Occurrence) : Prop where
  start : o.start.Loosened o'.start
  stop : o.stop.Loosened o'.stop
  read : a.read o.start = some o.stop

/-- A phrase whose occurrences a loosened text shows as they are. -/
structure Phrase.Found (a : Phrase) : Prop where
  loose : a.Loose
  shuns : a.Shuns
  moves : a.Moves

/-- Whole words without parentheses are found in a loosened text as in the text. -/
theorem Phrase.found_words {keywords : List String} (hkeywords : AreKeywords keywords)
    (hopen : ∀ k ∈ keywords, '(' ∉ k.toList) : (Phrase.words keywords).Found where
  loose := (loose_words hkeywords.1 fun k hk => ⟨hkeywords.2 k hk, hopen k hk⟩).1
  shuns := (loose_words hkeywords.1 fun k hk => ⟨hkeywords.2 k hk, hopen k hk⟩).2
  moves := (sought_words (f := .none) hkeywords).moves

variable {a : Phrase} {s t : List Char}

/-- A search in the loosened text finds what it finds in the text. -/
theorem Phrase.Found.occurrencesFrom (h : a.Found) (hst : Text.Loosened s t)
    (before : Option Char) :
    List.Forall₂ (Occurrence.Loosened a) (occurrencesFrom a before s)
      (Search.occurrencesFrom a before t) := by
  induction before, s using h.moves.search_induction generalizing t with
  | nil before =>
    cases hst
    simp
  | found before c s p hp ih =>
    cases hst with
    | @cons _ _ t hst =>
      have hstart : Place.Loosened ⟨before, c :: s⟩ ⟨before, c :: t⟩ := ⟨rfl, .cons c hst⟩
      have hread := h.loose _ _ hstart
      rw [hp] at hread
      generalize hq : a.read ⟨before, c :: t⟩ = y at hread
      cases hread with
      | some hstop =>
        rw [occurrencesFrom_of_read h.moves hp, occurrencesFrom_of_read h.moves hq, ← hstop.before]
        exact .cons ⟨hstart, hstop, hp⟩ (ih hstop.rest)
    | space hst =>
      exact absurd ((h.shuns.opening _ rfl).symm.trans hp) (by simp)
  | passed before c s hp ih =>
    cases hst with
    | @cons _ _ t hst =>
      have hread := h.loose ⟨before, c :: s⟩ ⟨before, c :: t⟩ ⟨rfl, .cons c hst⟩
      rw [hp] at hread
      generalize hq : a.read ⟨before, c :: t⟩ = y at hread
      cases hread with
      | none =>
        rw [occurrencesFrom_of_read_eq_none hp, occurrencesFrom_of_read_eq_none hq]
        exact ih hst
    | @space _ t hst =>
      have hblank : Search.occurrencesFrom a before (' ' :: '(' :: t) =
          Search.occurrencesFrom a (some ' ') ('(' :: t) :=
        occurrencesFrom_blank h.shuns.blank rfl before _
      rw [hblank, occurrencesFrom_of_read_eq_none hp,
        occurrencesFrom_of_read_eq_none (h.shuns.opening ⟨some ' ', '(' :: t⟩ rfl)]
      exact ih hst

/-- A loosened text holds a phrase as often as the text. -/
theorem Phrase.Found.count_eq (h : a.Found) (hst : Text.Loosened s t) : count a s = count a t :=
  (h.occurrencesFrom hst none).length_eq

/-- What follows the first occurrence is loosened with the text. -/
theorem Phrase.Found.rel_find? (h : a.Found) (hst : Text.Loosened s t) :
    Option.Rel (fun o o' => Text.Loosened o.stop.rest o'.stop.rest) (find? a s) (find? a t) := by
  have hall := h.occurrencesFrom hst none
  rw [find?, find?, occurrences, occurrences]
  generalize Search.occurrencesFrom a none s = l at hall ⊢
  generalize Search.occurrencesFrom a none t = l' at hall ⊢
  cases hall with
  | nil => exact .none
  | cons ho h => exact .some ho.stop.rest

/-- Of two values in a relation both are there or neither is. -/
theorem isSome_eq_of_rel {α β : Type} {r : α → β → Prop} {x : Option α} {y : Option β}
    (h : Option.Rel r x y) : x.isSome = y.isSome := by
  cases h <;> rfl

/-- A loosened text holds a phrase where the text does. -/
theorem Phrase.Found.holds_eq (h : a.Found) (hst : Text.Loosened s t) : holds a s = holds a t :=
  isSome_eq_of_rel (h.rel_find? hst)

end SqlReview.Search

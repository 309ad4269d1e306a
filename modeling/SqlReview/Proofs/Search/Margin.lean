import Mathlib.Data.Option.Defs
import SqlReview.Proofs.Search.Ending
import SqlReview.Proofs.Search.Occurrence

/-!
# Margins of a searched text

Blanks before a text and an ending after it make no difference to a search: it finds as much, and
at the same places.
-/

namespace SqlReview.Search

open SqlReview.Text SqlReview.Lexical

variable {a : Phrase}

/-! ### The character before a place -/

/-- Whether two places differ at most in the character before them, and not in whether it belongs
to a word. -/
structure Place.Alike (p q : Place) : Prop where
  rest : p.rest = q.rest
  word : p.before.any isWordChar = q.before.any isWordChar

variable {p q : Place}

private theorem Place.Alike.atBoundary (h : p.Alike q) : p.atBoundary = q.atBoundary := by
  rw [Place.atBoundary, Place.atBoundary, h.rest, h.word]

/-- Behind a run two alike places are alike. -/
theorem Place.Alike.skipWhile (h : p.Alike q) (cls : Char → Bool) :
    (p.skipWhile cls).Alike (q.skipWhile cls) := by
  obtain ⟨hrest, hword⟩ := h
  refine ⟨?_, ?_⟩
  · rw [Place.skipWhile, Place.skipWhile, hrest]
  · simp only [Place.skipWhile, hrest]
    cases (q.rest.takeWhile cls).getLast? with
    | none => exact hword
    | some c => rfl

/-- A phrase ends alike when it is read from places that are alike. -/
theorem Phrase.rel_read (a : Phrase) (h : p.Alike q) :
    Option.Rel Place.Alike (a.read p) (a.read q) := by
  induction a generalizing p q with
  | one cls =>
    obtain ⟨before, rest⟩ := p
    obtain ⟨before', rest'⟩ := q
    obtain rfl : rest = rest' := h.rest
    cases rest with
    | nil => exact .none
    | cons c s =>
      rw [Phrase.read_one_cons, Phrase.read_one_cons]
      split
      · exact .some ⟨rfl, rfl⟩
      · exact .none
  | run cls => exact .some (h.skipWhile cls)
  | boundary =>
    rw [Phrase.read_boundary, Phrase.read_boundary, h.atBoundary]
    split
    · exact .some h
    · exact .none
  | seq a b iha ihb =>
    rw [Phrase.read_seq, Phrase.read_seq]
    have ha := iha h
    generalize a.read p = x at ha ⊢
    generalize a.read q = y at ha ⊢
    cases ha with
    | none => exact .none
    | some hr => exact ihb hr
  | opt a iha =>
    rw [Phrase.read_opt, Phrase.read_opt]
    have ha := iha h
    generalize a.read p = x at ha ⊢
    generalize a.read q = y at ha ⊢
    cases ha with
    | none => exact .some h
    | some hr => exact .some hr
  | either a b iha ihb =>
    rw [Phrase.read_either, Phrase.read_either]
    have ha := iha h
    generalize a.read p = x at ha ⊢
    generalize a.read q = y at ha ⊢
    cases ha with
    | none => exact ihb h
    | some hr => exact .some hr

/-- Of the character before a text it matters only whether it belongs to a word. -/
theorem map_occurrencesFrom {β : Type} {g : Occurrence → β}
    (hg : ∀ o o' : Occurrence, o.start.Alike o'.start → o.stop.Alike o'.stop → g o = g o')
    (a : Phrase) {before before' : Option Char} (s : List Char)
    (h : before.any isWordChar = before'.any isWordChar) :
    (occurrencesFrom a before s).map g = (occurrencesFrom a before' s).map g := by
  induction hn : s.length using Nat.strongRecOn generalizing before before' s with
  | ind n ih =>
    cases s with
    | nil => simp
    | cons c s =>
      have hs : s.length < n := by
        rw [← hn]
        exact Nat.lt_succ_self _
      have hstart : Place.Alike ⟨before, c :: s⟩ ⟨before', c :: s⟩ := ⟨rfl, h⟩
      have hread := a.rel_read hstart
      rw [occurrencesFrom, occurrencesFrom]
      generalize a.read ⟨before, c :: s⟩ = x at hread ⊢
      generalize a.read ⟨before', c :: s⟩ = y at hread ⊢
      cases hread with
      | none => exact ih s.length hs s rfl rfl
      | @some stop stop' hstop =>
        simp only [hstop.rest]
        split
        · rw [List.map_cons, List.map_cons, hg ⟨_, stop⟩ ⟨_, stop'⟩ hstart hstop,
            ih stop'.rest.length (by omega) stop'.rest hstop.word rfl]
        · exact ih s.length hs s rfl rfl

/-- The character before a text matters to a search only by whether it belongs to a word. -/
theorem map_rest_occurrencesFrom (a : Phrase) {before before' : Option Char} (s : List Char)
    (h : before.any isWordChar = before'.any isWordChar) :
    (occurrencesFrom a before s).map (·.stop.rest) =
      (occurrencesFrom a before' s).map (·.stop.rest) :=
  map_occurrencesFrom (fun _ _ _ hstop => hstop.rest) a s h

/-! ### What follows the occurrences -/

/-- What follows each occurrence of a phrase in a text. -/
def remainders (a : Phrase) (s : List Char) : List (List Char) :=
  (occurrences a s).map (·.stop.rest)

/-- A phrase occurs as often as there are texts behind its occurrences. -/
theorem count_eq_length_remainders (a : Phrase) (s : List Char) :
    count a s = (remainders a s).length := by
  rw [count, remainders, List.length_map]

/-- The first occurrence of a phrase ends before the first of these texts. -/
theorem map_rest_find? (a : Phrase) (s : List Char) :
    (find? a s).map (·.stop.rest) = (remainders a s).head? := by
  rw [find?, remainders, List.head?_map]

/-- A text holds a phrase when there is such a text. -/
theorem holds_eq_isSome_remainders (a : Phrase) (s : List Char) :
    holds a s = (remainders a s).head?.isSome := by
  rw [holds, ← map_rest_find?, Option.isSome_map]

/-- No text stands behind an occurrence exactly when there is none. -/
theorem remainders_eq_nil_iff (a : Phrase) (s : List Char) :
    remainders a s = [] ↔ holds a s = false := by
  rw [holds_eq_isSome_remainders]
  cases remainders a s <;> simp

/-- What follows an occurrence in a text ends the text. -/
theorem suffix_of_mem_remainders {s r : List Char} (h : r ∈ remainders a s) : r <:+ s := by
  obtain ⟨o, ho, rfl⟩ := List.mem_map.mp h
  obtain ⟨hread, hstart⟩ := mem_occurrencesFrom ho
  exact (Phrase.suffix_read hread).trans hstart

/-- Blanks before a text change nothing for a search that does not stop at a blank. -/
theorem remainders_blanks_append (h : a.Refuses) {v : List Char} (hv : isBlankText v = true)
    (s : List Char) : remainders a (v ++ s) = remainders a s := by
  have hfrom : ∀ before : Option Char, before.any isWordChar = false →
      (occurrencesFrom a before (v ++ s)).map (·.stop.rest) =
        (occurrencesFrom a none s).map (·.stop.rest) := by
    induction v with
    | nil =>
      intro before hbefore
      exact map_rest_occurrencesFrom a s hbefore
    | cons c v ih =>
      intro before _
      obtain ⟨hc, hv⟩ : isBlank c = true ∧ isBlankText v = true := by simpa [isBlankText] using hv
      rw [List.cons_append, occurrencesFrom_blank h hc]
      exact ih hv (some c) (inner_isWordChar.blank c hc)
  exact hfrom none rfl

/-- Blanks before a text do not hold a phrase that begins at no blank. -/
theorem holds_blanks_append (h : a.Refuses) {v : List Char} (hv : isBlankText v = true)
    (s : List Char) : holds a (v ++ s) = holds a s := by
  rw [holds_eq_isSome_remainders, remainders_blanks_append h hv, ← holds_eq_isSome_remainders]

private theorem occurrencesFrom_ending {y z : List Char} (h : a.Halts z) (before : Option Char)
    (hy : y <:+ z) : occurrencesFrom a before y = [] := by
  induction y generalizing before with
  | nil => simp
  | cons c y ih =>
    rw [occurrencesFrom_of_read_eq_none (h ⟨before, c :: y⟩ hy)]
    exact ih (some c) ((List.suffix_cons c y).trans hy)

/-- A search finds before an ending what it finds where nothing follows, and nothing in it. -/
theorem occurrencesFrom_append {z : List Char} (hsettled : a.Settled z) (hhalts : a.Halts z)
    (hmoves : a.Moves) (before : Option Char) (s : List Char) :
    occurrencesFrom a before (s ++ z) =
      (occurrencesFrom a before s).map (Occurrence.append z) := by
  induction before, s using hmoves.search_induction with
  | nil before =>
    rw [List.nil_append, occurrencesFrom_ending hhalts before (List.suffix_refl z),
      occurrencesFrom_nil, List.map_nil]
  | found before c s q hq ih =>
    have hread := hsettled ⟨before, c :: s⟩
    rw [Place.append, List.cons_append, hq, Option.map_some] at hread
    rw [List.cons_append, occurrencesFrom_of_read hmoves hread, occurrencesFrom_of_read hmoves hq,
      List.map_cons]
    exact congrArg _ ih
  | passed before c s hq ih =>
    have hread := hsettled ⟨before, c :: s⟩
    rw [Place.append, List.cons_append, hq, Option.map_none] at hread
    rw [List.cons_append, occurrencesFrom_of_read_eq_none hread,
      occurrencesFrom_of_read_eq_none hq, ih]

/-- A phrase to whose occurrences blanks before a text and an ending after it make no
difference. -/
structure Phrase.Framed (z : List Char) (a : Phrase) : Prop where
  refuses : a.Refuses
  moves : a.Moves
  settled : a.Settled z
  halts : a.Halts z

/-- Whole words are found between blanks and an ending. -/
theorem Phrase.framed_words {z : List Char} (h : Ending z) {keywords : List String}
    (hkeywords : AreKeywords keywords) (hforeign : ∀ k ∈ keywords, IsForeign k) :
    Framed z (words keywords) where
  refuses := (sought_words (f := .none) hkeywords).refuses
  moves := (sought_words (f := .none) hkeywords).moves
  settled := settled_words h hkeywords.1 hforeign
  halts := halts_words h hkeywords.1 hforeign

/-- What follows an occurrence goes on with the ending. -/
theorem Phrase.Framed.remainders_eq {z : List Char} (h : a.Framed z) {v : List Char}
    (hv : isBlankText v = true) (s : List Char) :
    remainders a (v ++ s ++ z) = (remainders a s).map (· ++ z) := by
  rw [List.append_assoc, remainders_blanks_append h.refuses hv, remainders, remainders,
    occurrences, occurrencesFrom_append h.settled h.halts h.moves, List.map_map, List.map_map]
  rfl

/-- A framed phrase occurs as often with blanks before the text and an ending after it. -/
theorem Phrase.Framed.count_eq {z : List Char} (h : a.Framed z) {v : List Char}
    (hv : isBlankText v = true) (s : List Char) : count a (v ++ s ++ z) = count a s := by
  rw [count_eq_length_remainders, count_eq_length_remainders, h.remainders_eq hv, List.length_map]

/-- A text with blanks before it and an ending after it holds the framed phrases of the text. -/
theorem Phrase.Framed.holds_eq {z : List Char} (h : a.Framed z) {v : List Char}
    (hv : isBlankText v = true) (s : List Char) : holds a (v ++ s ++ z) = holds a s := by
  rw [holds_eq_isSome_remainders, holds_eq_isSome_remainders, h.remainders_eq hv, List.head?_map,
    Option.isSome_map]

end SqlReview.Search

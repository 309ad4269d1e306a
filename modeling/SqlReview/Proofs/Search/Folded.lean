import SqlReview.Proofs.Search.Keyword
import SqlReview.Proofs.Search.Margin

/-!
# Searches in a folded text

A phrase that asks of no character in which case it is written is read from a folded text as from
the text. A search for it finds the same in both, and leaves the same rest.
-/

namespace SqlReview.Search

open SqlReview.Text

/-- A place of a text in the folded text. -/
def Place.fold (f : Folding) (p : Place) : Place :=
  ⟨p.before.map f.of, p.rest.map f.of⟩

/-- An occurrence in the folded text. -/
def Occurrence.fold (f : Folding) (o : Occurrence) : Occurrence :=
  ⟨o.start.fold f, o.stop.fold f⟩

namespace Phrase

/-! ### Phrases in either case -/

/-- Whether a phrase ends in the folded text at the place where it ends in the text. -/
def Caseless (f : Folding) (a : Phrase) : Prop :=
  ∀ p : Place, a.read (p.fold f) = (a.read p).map (Place.fold f)

variable {f : Folding} {a b : Phrase} {cls : Char → Bool}

/-- One character of a class is caseless when the class holds both cases of every letter or neither.
-/
theorem caseless_one (h : ∀ c, cls (f.of c) = cls c) : Caseless f (.one cls) := by
  rintro ⟨before, rest⟩
  cases rest with
  | nil => rfl
  | cons c s =>
    simp only [Place.fold, List.map_cons, read_one_cons, h]
    split <;> rfl

/-- A run of such a class is caseless. -/
theorem caseless_run (h : ∀ c, cls (f.of c) = cls c) : Caseless f (.run cls) := by
  intro p
  have hcls : cls ∘ f.of = cls := funext h
  simp only [read_run, Place.skipWhile, Place.fold, List.takeWhile_map, List.dropWhile_map, hcls,
    List.getLast?_map, Option.map_some]
  cases (p.rest.takeWhile cls).getLast? <;> rfl

/-- The beginning or end of a word is caseless. -/
theorem caseless_boundary : Caseless f .boundary := by
  intro p
  have hword : ∀ o : Option Char, (o.map f.of).any isWordChar = o.any isWordChar := by
    intro o
    cases o with
    | none => rfl
    | some c => exact (solid_isWordChar f).fold c
  have hboundary : (p.fold f).atBoundary = p.atBoundary := by
    rw [Place.atBoundary, Place.atBoundary, Place.fold, List.head?_map, hword, hword]
  rw [read_boundary, read_boundary, hboundary]
  split <;> rfl

/-- Two phrases one after the other are caseless when both are. -/
theorem Caseless.seq (ha : Caseless f a) (hb : Caseless f b) : Caseless f (.seq a b) := by
  intro p
  rw [read_seq, read_seq, ha p]
  cases a.read p with
  | none => rfl
  | some q => exact hb q

/-- Phrases one after the other are caseless when all are. -/
theorem caseless_all {l : List Phrase} (h : ∀ a ∈ l, Caseless f a) : Caseless f (.all l) :=
  all_of (caseless_run fun _ => rfl) Caseless.seq h

/-- Keywords are looked for in either case. -/
theorem caseless_words {keywords : List String} (h : AreKeywords keywords) :
    Caseless f (words keywords) := by
  have hletters : ∀ k ∈ keywords, Caseless f (letters k) := by
    intro k hk
    refine caseless_all fun a ha => ?_
    obtain ⟨c, hc, rfl⟩ := List.mem_map.mp ha
    exact caseless_one (solid_foldsTo ((h.2 k hk).2 c hc)).fold
  have hgap : Caseless f gap := (caseless_one f.isBlank_of).seq (caseless_run f.isBlank_of)
  apply caseless_all
  intro a ha
  simp only [List.cons_append, List.mem_cons, List.mem_append, List.not_mem_nil, or_false] at ha
  rcases ha with rfl | ha | rfl
  · exact caseless_boundary
  · rcases mem_intersperse ha with rfl | ha
    · exact hgap
    · obtain ⟨k, hk, rfl⟩ := List.mem_map.mp ha
      exact hletters k hk
  · exact caseless_boundary

end Phrase

/-! ### Searches -/

variable {f : Folding} {a : Phrase}

/-- A search in a folded text finds what it finds in the text, folded. -/
theorem occurrencesFrom_fold (h : a.Caseless f) (before : Option Char) (s : List Char) :
    occurrencesFrom a (before.map f.of) (s.map f.of) =
      (occurrencesFrom a before s).map (Occurrence.fold f) := by
  have hread : ∀ before c s, a.read ⟨Option.map f.of before, f.of c :: List.map f.of s⟩ =
      (a.read ⟨before, c :: s⟩).map (Place.fold f) := fun before c s => h ⟨before, c :: s⟩
  fun_induction occurrencesFrom a before s with
  | case1 before => simp
  | case2 before c s start q hq hle ih =>
    have hlength : (q.fold f).rest.length ≤ (s.map f.of).length := by simpa [Place.fold] using hle
    rw [List.map_cons, occurrencesFrom, hread, hq]
    simp only [Option.map_some, if_pos hlength, List.map_cons]
    rw [← ih]
    rfl
  | case3 before c s start q hq hle ih =>
    have hlength : ¬(q.fold f).rest.length ≤ (s.map f.of).length := by simpa [Place.fold] using hle
    rw [List.map_cons, occurrencesFrom, hread, hq]
    simp only [Option.map_some, if_neg hlength]
    exact ih
  | case4 before c s start hq ih =>
    rw [List.map_cons, occurrencesFrom, hread, hq]
    exact ih

/-- What follows the occurrences in a folded text. -/
theorem remainders_fold (h : a.Caseless f) (s : List Char) :
    remainders a (s.map f.of) = (remainders a s).map (List.map f.of) := by
  have hfold := occurrencesFrom_fold h none s
  rw [Option.map_none] at hfold
  rw [remainders, remainders, occurrences, occurrences, hfold, List.map_map, List.map_map]
  rfl

end SqlReview.Search

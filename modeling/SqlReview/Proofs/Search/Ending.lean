import SqlReview.Proofs.Lexical.Ending
import SqlReview.Proofs.Search.Keyword

/-!
# Reading before an ending

A keyword is read before an ending as where nothing follows, and none is read in it. A gap may go on
into the ending, but it is of no use there, since no keyword follows it.
-/

namespace SqlReview.Search

open SqlReview.Text SqlReview.Lexical

variable {z : List Char}

/-! ### Characters that begin no ending -/

/-- Whether a class of characters holds neither blanks nor quotation marks. -/
structure Inner (cls : Char → Bool) : Prop where
  blank : ∀ c, isBlank c = true → cls c = false
  quote : ∀ c, isQuote c = true → cls c = false

/-- No character of such a class begins an ending. -/
theorem any_head?_ending (h : Ending z) {cls : Char → Bool} (hcls : Inner cls) :
    z.head?.any cls = false := by
  cases hc : z.head? with
  | none => rfl
  | some c =>
    rcases h.head hc with hb | hq
    · exact hcls.blank c hb
    · exact hcls.quote c hq

/-- A text begins with a character of such a class whether or not an ending follows. -/
theorem any_head?_append_ending (h : Ending z) {cls : Char → Bool} (hcls : Inner cls)
    (s : List Char) : (s ++ z).head?.any cls = s.head?.any cls := by
  cases s with
  | nil => exact any_head?_ending h hcls
  | cons c s => rfl

/-- Word characters are neither blanks nor quotation marks. -/
theorem inner_isWordChar : Inner isWordChar where
  blank := (solid_isWordChar .none).blank
  quote c hc := by
    simp only [isQuote, Bool.or_eq_true, beq_iff_eq] at hc
    rcases hc with (rfl | rfl) | rfl <;> decide

/-- Name characters are neither blanks nor quotation marks. -/
theorem inner_isNameChar : Inner isNameChar where
  blank := (solid_isNameChar .none).blank
  quote c hc := by
    simp only [isQuote, Bool.or_eq_true, beq_iff_eq] at hc
    rcases hc with (rfl | rfl) | rfl <;> decide

/-- A mark of another kind is neither a blank nor a quotation mark. -/
theorem inner_mark {k : Char} (hb : isBlank k = false) (hq : isQuote k = false) :
    Inner (· == k) where
  blank _ hc := beq_of_isBlank hc hb
  quote c hc := by
    rw [beq_eq_false_iff_ne]
    rintro rfl
    rw [hc] at hq
    exact absurd hq (by decide)

/-- A letter is no blank and no quotation mark in any case. -/
theorem inner_sameLetter {k : Char} (hb : isBlank k = false) (hq : isQuote k = false) :
    Inner (sameLetter k) where
  blank _ hc := sameLetter_of_isBlank hb hc
  quote c hc := by
    rw [Bool.eq_false_iff]
    intro h
    rw [isQuote_eq_of_sameLetter h, hc] at hq
    exact absurd hq (by decide)

/-- The cases of such a character are neither. -/
theorem inner_foldsTo {k : Char} (hb : isBlank k = false) (hq : isQuote k = false) :
    Inner (foldsTo k) where
  blank := (Phrase.solid_foldsTo (f := .none) hb).blank
  quote c hc := by
    have hletter := (inner_sameLetter hb hq).quote c hc
    have hlong := (inner_mark (k := '\u017F') (by decide) (by decide)).quote c hc
    have hkelvin := (inner_mark (k := '\u212A') (by decide) (by decide)).quote c hc
    simp only [foldsTo, hletter, hlong, hkelvin, Bool.and_false, Bool.or_false]

/-! ### Reading before an ending -/

/-- A place with further text after it. -/
def Place.append (z : List Char) (p : Place) : Place :=
  ⟨p.before, p.rest ++ z⟩

/-- An occurrence with further text after it. -/
def Occurrence.append (z : List Char) (o : Occurrence) : Occurrence :=
  ⟨o.start.append z, o.stop.append z⟩

namespace Phrase

/-- Whether a phrase is read before an ending as where nothing follows. -/
def Settled (z : List Char) (a : Phrase) : Prop :=
  ∀ p : Place, a.read (p.append z) = (a.read p).map (Place.append z)

/-- Whether a phrase that is not read before an ending as where nothing follows is read, if at
all, up to the end of the text or into the ending. -/
def Runs (z : List Char) (a : Phrase) : Prop :=
  ∀ p : Place, a.read (p.append z) = (a.read p).map (Place.append z) ∨
    (∀ q, a.read (p.append z) = some q → q.rest <:+ z) ∧ ∀ q, a.read p = some q → q.rest <:+ z

/-- Whether a phrase is nowhere read in an ending. -/
def Halts (z : List Char) (a : Phrase) : Prop :=
  ∀ p : Place, p.rest <:+ z → a.read p = none

variable {a b : Phrase} {cls : Char → Bool}

/-- One character that begins no ending is settled. -/
theorem settled_one (h : Ending z) (hcls : Inner cls) : Settled z (.one cls) := by
  intro p
  obtain ⟨before, rest⟩ := p
  cases rest with
  | nil =>
    cases hz : z with
    | nil => rfl
    | cons c z' =>
      have hc := any_head?_ending h hcls
      rw [hz] at hc
      have hc : cls c = false := hc
      simp [Place.append, hc]
  | cons c s =>
    by_cases hc : cls c = true <;> simp [Place.append, hc]

/-- The beginning or end of a word is settled. -/
theorem settled_boundary (h : Ending z) : Settled z .boundary := by
  intro p
  have hat : (p.append z).atBoundary = p.atBoundary := by
    simp only [Place.atBoundary, Place.append, any_head?_append_ending h inner_isWordChar]
  rw [read_boundary, read_boundary, hat]
  split <;> rfl

/-- A run that is not settled goes up to the end of the text or into the ending. -/
theorem runs_run (z : List Char) (cls : Char → Bool) : Runs z (.run cls) := by
  intro p
  obtain ⟨before, rest⟩ := p
  by_cases hrest : rest.dropWhile cls = []
  · right
    constructor
    · intro q hq
      obtain rfl := Option.some.inj hq
      simp only [Place.skipWhile, Place.append, List.dropWhile_append, hrest, List.isEmpty_nil,
        if_true]
      exact List.dropWhile_suffix cls
    · intro q hq
      obtain rfl := Option.some.inj hq
      simp only [Place.skipWhile, hrest]
      exact List.nil_suffix
  · left
    have hlength : (rest.takeWhile cls).length ≠ rest.length := by
      intro heq
      have happend := congrArg List.length (List.takeWhile_append_dropWhile (p := cls) (l := rest))
      rw [List.length_append, heq] at happend
      exact hrest (List.length_eq_zero_iff.mp (by omega))
    simp [Place.skipWhile, Place.append, List.takeWhile_append, List.dropWhile_append, hrest,
      hlength]

/-- Two phrases one after the other are settled when both are. -/
theorem Settled.seq (ha : Settled z a) (hb : Settled z b) : Settled z (.seq a b) := by
  intro p
  rw [read_seq, read_seq, ha p]
  cases a.read p with
  | none => rfl
  | some q => exact hb q

/-- A run is taken to its end by what cannot be read in the ending. -/
theorem Runs.seq (ha : Runs z a) (hb : Settled z b) (hhalts : Halts z b) :
    Settled z (.seq a b) := by
  intro p
  have hnone : ∀ o : Option Place, (∀ q, o = some q → q.rest <:+ z) → o.bind b.read = none := by
    intro o ho
    cases o with
    | none => rfl
    | some q => exact hhalts q (ho q rfl)
  rw [read_seq, read_seq]
  rcases ha p with h | ⟨hlong, hshort⟩
  · rw [h]
    cases a.read p with
    | none => rfl
    | some q => exact hb q
  · rw [hnone _ hlong, hnone _ hshort]
    rfl

/-- The first of two phrases that is there is settled when both are. -/
theorem Settled.either (ha : Settled z a) (hb : Settled z b) : Settled z (.either a b) := by
  intro p
  rw [read_either, read_either, ha p, hb p]
  cases a.read p <;> rfl

/-- One character that an ending does not hold halts at the ending. -/
theorem halts_one (h : ∀ c ∈ z, cls c = false) : Halts z (.one cls) := by
  intro p hp
  obtain ⟨before, rest⟩ := p
  cases rest with
  | nil => rfl
  | cons c s => simp [h c (hp.subset (List.mem_cons_self ..))]

/-- Two phrases one after the other halt where the first does. -/
theorem Halts.seq (ha : Halts z a) : Halts z (.seq a b) := by
  intro p hp
  rw [read_seq, ha p hp]
  rfl

/-- A phrase at the beginning of a word halts where it does without. -/
theorem Halts.boundary (hb : Halts z b) : Halts z (.seq .boundary b) := by
  intro p hp
  rw [read_seq, read_boundary]
  split
  · exact hb p hp
  · rfl

/-- Phrases one after the other halt when the first one does. -/
theorem Halts.all (ha : Halts z a) (l : List Phrase) : Halts z (.all (a :: l)) :=
  all_cons_of Halts.seq ha l

/-- The first of two phrases that is there halts where both do. -/
theorem Halts.either (ha : Halts z a) (hb : Halts z b) : Halts z (.either a b) := by
  intro p hp
  rw [read_either, ha p hp, hb p hp]
  rfl

/-- Phrases one after the other are settled when all are. -/
theorem settled_all {l : List Phrase} (h : ∀ a ∈ l, Settled z a) (hne : l ≠ []) :
    Settled z (.all l) :=
  all_of_ne_nil Settled.seq hne h

/-- The first of several phrases that is there is settled when all are. -/
theorem settled_any {l : List Phrase} (h : ∀ a ∈ l, Settled z a) (hne : l ≠ []) :
    Settled z (.any l) :=
  any_of_ne_nil Settled.either hne h

/-- The first of several phrases that is there halts where all do. -/
theorem halts_any {l : List Phrase} (h : ∀ a ∈ l, Halts z a) : Halts z (.any l) :=
  any_of (halts_one fun _ _ => rfl) Halts.either h

/-! ### Keywords before an ending -/

/-- Whether a keyword has nothing in common with an ending: it has letters, none of them is a blank
or a quotation mark, and the first is no filler. -/
def IsForeign (keyword : String) : Prop :=
  (∀ k ∈ keyword.toList, isBlank k = false ∧ isQuote k = false) ∧
    keyword.toList.head?.any (fun k => !foldsTo k filler) = true

/-- Whether a keyword is foreign is told from its characters. -/
instance : DecidablePred IsForeign := fun keyword =>
  @instDecidableAnd _ _
    (List.decidableBAll (fun k => isBlank k = false ∧ isQuote k = false) keyword.toList)
    inferInstance

variable {keyword : String}

/-- A foreign keyword has letters. -/
theorem IsForeign.ne_nil (hk : IsForeign keyword) : keyword.toList ≠ [] := by
  intro hnil
  have hfirst := hk.2
  rw [hnil] at hfirst
  exact absurd hfirst (by decide)

/-- A keyword is read before an ending as where nothing follows. -/
theorem settled_letters (h : Ending z) (hk : IsForeign keyword) : Settled z (letters keyword) := by
  apply settled_all
  · intro a ha
    obtain ⟨k, hmem, rfl⟩ := List.mem_map.mp ha
    obtain ⟨hb, hq⟩ := hk.1 k hmem
    exact settled_one h (inner_foldsTo hb hq)
  · simpa using hk.ne_nil

/-- No keyword is read in an ending. -/
theorem halts_letters (h : Ending z) (hk : IsForeign keyword) : Halts z (letters keyword) := by
  obtain ⟨hletters, hfirst⟩ := hk
  unfold letters
  cases hks : keyword.toList with
  | nil =>
    rw [hks] at hfirst
    exact absurd hfirst (by decide)
  | cons k ks =>
    rw [hks] at hletters hfirst
    obtain ⟨hb, hq⟩ := hletters k (List.mem_cons_self ..)
    apply Halts.all
    apply halts_one
    intro c hc
    rcases h.mem hc with hblank | hquote | rfl
    · exact (inner_foldsTo hb hq).blank c hblank
    · exact (inner_foldsTo hb hq).quote c hquote
    · simpa using hfirst

/-- A gap that is not settled goes up to the end of the text or into the ending. -/
theorem runs_gap (z : List Char) : Runs z gap := by
  intro p
  obtain ⟨before, rest⟩ := p
  cases rest with
  | nil =>
    right
    constructor
    · intro q hq
      exact suffix_read hq
    · intro q hq
      exact absurd hq (by simp [gap, atLeastOne])
  | cons c s =>
    by_cases hc : isBlank c = true
    · have hstep : ∀ t, gap.read ⟨before, c :: t⟩ = blanks.read ⟨some c, t⟩ := by
        intro t
        simp [gap, atLeastOne, blanks, hc]
      have hrun := runs_run z isBlank ⟨some c, s⟩
      rw [Place.append, List.cons_append, hstep, hstep]
      exact hrun
    · left
      simp [gap, atLeastOne, Place.append, hc]

/-- Whole words are read before an ending as where nothing follows. -/
theorem settled_words (h : Ending z) {keywords : List String} (hne : keywords ≠ [])
    (hk : ∀ k ∈ keywords, IsForeign k) : Settled z (words keywords) := by
  have hinner : Settled z (.all ((keywords.map letters).intersperse gap ++ [boundary])) := by
    induction keywords with
    | nil => exact absurd rfl hne
    | cons k ks ih =>
      have hfirst := settled_letters h (hk k (List.mem_cons_self ..))
      cases ks with
      | nil => exact hfirst.seq (settled_boundary h)
      | cons k' ks =>
        have hrest := ih (by simp) fun j hj => hk j (List.mem_cons_of_mem k hj)
        have hhalts : Halts z
            (.all (((k' :: ks).map letters).intersperse gap ++ [boundary])) := by
          have hletters := halts_letters h (hk k' (by simp))
          cases ks with
          | nil => exact hletters.all _
          | cons k'' ks => exact hletters.all _
        have hgap := (runs_gap z).seq hrest hhalts
        cases ks with
        | nil => exact hfirst.seq hgap
        | cons k'' ks => exact hfirst.seq hgap
  obtain ⟨k, ks, rfl⟩ := List.exists_cons_of_ne_nil hne
  cases ks with
  | nil => exact (settled_boundary h).seq hinner
  | cons k' ks => exact (settled_boundary h).seq hinner

/-- No word is read in an ending. -/
theorem halts_words (h : Ending z) {keywords : List String} (hne : keywords ≠ [])
    (hk : ∀ k ∈ keywords, IsForeign k) : Halts z (words keywords) := by
  obtain ⟨k, ks, rfl⟩ := List.exists_cons_of_ne_nil hne
  have hletters := halts_letters h (hk k (List.mem_cons_self ..))
  cases ks with
  | nil => exact (hletters.all [boundary]).boundary
  | cons k' ks => exact (hletters.all _).boundary

end Phrase

end SqlReview.Search

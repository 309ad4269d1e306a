import SqlReview.Proofs.Search.Margin
import SqlReview.Proofs.Search.Taken

/-!
# Searches for words

A search for a phrase that begins with a whole word in any case reads the words of a text one after
the other: it passes over all words but this one, and over what stands between them.
-/

namespace SqlReview.Search

open SqlReview.Text

/-! ### Letters of a keyword -/

/-- What is the same of both cases of a letter, of an s and the long s and of a k and the Kelvin
sign is the same of a letter and of what is read as it. -/
theorem eq_of_foldsTo {α : Type} {f : Char → α} (hcase : IgnoresCase f)
    (hlong : f 's' = f '\u017F') (hkelvin : f 'k' = f '\u212A') {k c : Char}
    (h : foldsTo k c = true) : f k = f c := by
  have hletter : ∀ l : Char, k.toLower = l → l.toLower = l → f k = f l := fun l hk hl =>
    eq_of_sameLetter hcase (by rw [sameLetter, hk, hl, beq_self_eq_true])
  simp only [foldsTo, Bool.or_eq_true, Bool.and_eq_true, beq_iff_eq] at h
  rcases h with (hsame | ⟨hs, rfl⟩) | ⟨hk, rfl⟩
  · exact eq_of_sameLetter hcase hsame
  · exact (hletter 's' hs rfl).trans hlong
  · exact (hletter 'k' hk rfl).trans hkelvin

/-- What is read as a letter belongs to a word when the letter does. -/
theorem isWordChar_eq_of_foldsTo {k c : Char} (h : foldsTo k c = true) :
    isWordChar k = isWordChar c :=
  eq_of_foldsTo (by decide) (by decide +kernel) (by decide +kernel) h

/-- Whether a text is made of the given letters as a search reads them. -/
def spells : (letters w : List Char) → Bool
  | [], [] => true
  | k :: ks, c :: w => foldsTo k c && spells ks w
  | _, _ => false

/-- No letters spell the empty text only. -/
theorem spells_nil_iff {w : List Char} : spells [] w = true ↔ w = [] := by
  cases w <;> simp [spells]

/-- What letters spell begins with what the first letter spells. -/
theorem spells_cons_iff {k : Char} {ks w : List Char} : spells (k :: ks) w = true ↔
    ∃ c v, w = c :: v ∧ foldsTo k c = true ∧ spells ks v = true := by
  cases w with
  | nil => simp [spells]
  | cons c v => simp [spells, and_assoc]

/-- What some letters spell is not empty. -/
theorem ne_nil_of_spells {ks w : List Char} (hne : ks ≠ []) (h : spells ks w = true) : w ≠ [] := by
  obtain ⟨k, ks, rfl⟩ := List.exists_cons_of_ne_nil hne
  obtain ⟨c, v, rfl, -⟩ := spells_cons_iff.mp h
  exact List.cons_ne_nil c v

/-- Letters that fold to no other characters spell what is the same up to the case of letters. -/
theorem spells_eq_sameText {ks : List Char}
    (h : ∀ k ∈ ks, k.toLower ≠ 's' ∧ k.toLower ≠ 'k') (w : List Char) :
    spells ks w = sameText w ks := by
  induction ks generalizing w with
  | nil => cases w <;> rfl
  | cons k ks ih =>
    cases w with
    | nil => rfl
    | cons c w =>
      obtain ⟨hs, hk⟩ := h k (List.mem_cons_self ..)
      have hfold : foldsTo k c = sameLetter k c := by
        rw [foldsTo, beq_eq_false_iff_ne.mpr hs, beq_eq_false_iff_ne.mpr hk, Bool.false_and,
          Bool.false_and, Bool.or_false, Bool.or_false]
      have hrest := ih (fun k' hk' => h k' (List.mem_cons_of_mem k hk')) w
      have hletter : sameLetter k c = (c.toLower == k.toLower) := BEq.comm
      rw [spells, hfold, hrest, hletter]
      rfl

namespace Phrase

/-- No phrases are read as nothing. -/
theorem read_all_nil (p : Place) : (all []).read p = some p := by
  obtain ⟨before, rest⟩ := p
  cases rest <;> rfl

/-- Phrases one after the other are read from the first one on. -/
theorem read_all_cons (a : Phrase) (l : List Phrase) (p : Place) :
    (all (a :: l)).read p = (a.read p).bind (all l).read := by
  cases l with
  | nil =>
    rw [funext read_all_nil]
    change a.read p = _
    cases a.read p <;> rfl
  | cons b l => rfl

/-- One character is read where it stands. -/
theorem read_one_iff {cls : Char → Bool} {p q : Place} :
    (one cls).read p = some q ↔ ∃ c, cls c = true ∧ p.Before [c] q := by
  obtain ⟨before, rest⟩ := p
  constructor
  · intro h
    cases rest with
    | nil => exact absurd h (by simp)
    | cons c s =>
      rw [read_one_cons] at h
      split at h
      · next hc =>
        obtain rfl := Option.some.inj h
        exact ⟨c, hc, rfl, rfl⟩
      · exact absurd h (by simp)
  · rintro ⟨c, hc, hrest, hbefore⟩
    obtain ⟨before', s⟩ := q
    obtain rfl : rest = c :: s := hrest
    obtain rfl : before' = some c := hbefore
    exact if_pos hc

/-- The letters of a keyword are read where a text spells them. -/
theorem read_letters_iff {keyword : String} {p q : Place} :
    (letters keyword).read p = some q ↔ ∃ w, spells keyword.toList w = true ∧ p.Before w q := by
  unfold letters
  generalize keyword.toList = ks
  induction ks generalizing p with
  | nil =>
    rw [List.map_nil, read_all_nil, Option.some_inj, ← Place.before_nil_iff]
    exact ⟨fun h => ⟨[], rfl, h⟩, fun ⟨w, hw, h⟩ => spells_nil_iff.mp hw ▸ h⟩
  | cons k ks ih =>
    rw [List.map_cons, read_all_cons, Option.bind_eq_some_iff]
    constructor
    · rintro ⟨r, hr, hq⟩
      obtain ⟨c, hc, hbefore⟩ := read_one_iff.mp hr
      obtain ⟨w, hw, hafter⟩ := ih.mp hq
      exact ⟨c :: w, spells_cons_iff.mpr ⟨c, w, rfl, hc, hw⟩, hbefore.trans hafter⟩
    · rintro ⟨w, hw, h⟩
      obtain ⟨c, w, rfl, hc, hw⟩ := spells_cons_iff.mp hw
      obtain ⟨r, hbefore, hafter⟩ := Place.before_cons_iff.mp h
      exact ⟨r, read_one_iff.mpr ⟨c, hc, hbefore⟩, ih.mpr ⟨w, hw, hafter⟩⟩

/-- The characters of a keyword are read where they stand. -/
theorem read_exactly_iff {keyword : String} {p q : Place} :
    (exactly keyword).read p = some q ↔ p.Before keyword.toList q := by
  unfold exactly
  generalize keyword.toList = ks
  induction ks generalizing p with
  | nil => rw [List.map_nil, read_all_nil, Option.some_inj, Place.before_nil_iff]
  | cons k ks ih =>
    rw [List.map_cons, read_all_cons, Option.bind_eq_some_iff, Place.before_cons_iff]
    refine exists_congr fun r => and_congr ?_ ih
    rw [read_one_iff]
    exact ⟨fun ⟨_, hc, h⟩ => beq_iff_eq.mp hc ▸ h, fun h => ⟨k, beq_self_eq_true k, h⟩⟩

end Phrase

/-! ### Whole words -/

/-- What spells a keyword is a word where the letters of the keyword are. -/
theorem isWordChar_of_spells {ks w : List Char}
    (hks : ∀ k ∈ ks, ∀ c, foldsTo k c = true → isWordChar c = true) (h : spells ks w = true) :
    ∀ c ∈ w, isWordChar c = true := by
  induction ks generalizing w with
  | nil =>
    rw [spells_nil_iff.mp h]
    simp
  | cons k ks ih =>
    obtain ⟨c, w, rfl, hc, hw⟩ := spells_cons_iff.mp h
    intro d hd
    rcases List.mem_cons.mp hd with rfl | hd
    · exact hks k (List.mem_cons_self ..) d hc
    · exact ih (fun k' hk' => hks k' (List.mem_cons_of_mem k hk')) hw d hd

namespace Phrase

/-- Whether a phrase is read only where a word begins or ends. -/
def OnBoundary (a : Phrase) : Prop :=
  ∀ p q : Place, a.read p = some q → p.atBoundary = true

variable {a : Phrase} {keyword : String} {w s : List Char}

/-- Inside of a word no phrase is read that needs the beginning or the end of one. -/
theorem OnBoundary.occurrencesFrom_inside (h : a.OnBoundary)
    (hw : ∀ c ∈ w, isWordChar c = true) {b : Char} (hb : isWordChar b = true) :
    occurrencesFrom a (some b) (w ++ s) = occurrencesFrom a (w.getLast?.or (some b)) s := by
  induction w generalizing b with
  | nil => rfl
  | cons c w ih =>
    have hc := hw c (List.mem_cons_self ..)
    have hread : a.read ⟨some b, c :: (w ++ s)⟩ = none := by
      rw [Option.eq_none_iff_forall_ne_some]
      intro q hq
      have hat := h _ q hq
      rw [Place.atBoundary] at hat
      simp [hb, hc] at hat
    rw [List.cons_append, occurrencesFrom, hread,
      ih (fun d hd => hw d (List.mem_cons_of_mem c hd)) hc, List.getLast?_cons]
    cases w.getLast? <;> rfl

/-- Whether a phrase is read only where a whole word begins that a keyword spells. -/
def BeginsWord (keyword : String) (a : Phrase) : Prop :=
  ∀ p q : Place, a.read p = some q → p.atBoundary = true ∧
    ∃ w s, p.rest = w ++ s ∧ spells keyword.toList w = true ∧ s.head?.any isWordChar = false

/-- A phrase that begins with a whole word is read only where a word begins or ends. -/
theorem BeginsWord.onBoundary (h : a.BeginsWord keyword) : a.OnBoundary :=
  fun p q hq => (h p q hq).1

/-- A search passes over a word that is not the one that a phrase begins with. -/
theorem BeginsWord.occurrencesFrom_word (h : a.BeginsWord keyword)
    (hkeyword : ∀ k ∈ keyword.toList, ∀ c, foldsTo k c = true → isWordChar c = true)
    (hw : ∀ c ∈ w, isWordChar c = true) (hspells : spells keyword.toList w = false)
    (hs : s.head?.any isWordChar = false) (before : Option Char) :
    occurrencesFrom a before (w ++ s) = occurrencesFrom a (w.getLast?.or before) s := by
  cases w with
  | nil => rfl
  | cons c w =>
    have hread : a.read ⟨before, c :: (w ++ s)⟩ = none := by
      rw [Option.eq_none_iff_forall_ne_some]
      intro q hq
      obtain ⟨-, v, t, hrest, hv, ht⟩ := h _ q hq
      have hword := isWordChar_of_spells hkeyword hv
      have hsame : c :: w = v := by
        rw [← (span_of_head? hw hs).1, ← (span_of_head? hword ht).1]
        exact congrArg (List.takeWhile isWordChar) hrest
      rw [hsame, hv] at hspells
      exact absurd hspells (by decide)
    rw [List.cons_append, occurrencesFrom, hread,
      h.onBoundary.occurrencesFrom_inside (fun d hd => hw d (List.mem_cons_of_mem c hd))
        (hw c (List.mem_cons_self ..)), List.getLast?_cons]
    cases w.getLast? <;> rfl

end Phrase

end SqlReview.Search

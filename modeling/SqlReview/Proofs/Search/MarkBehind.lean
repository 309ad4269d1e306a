import SqlReview.Proofs.Search.Direct
import SqlReview.Proofs.Search.Offset

/-!
# Marks behind blanks

Blanks, and behind them a phrase that is not read where a blank stands, such as one character that
is none. What stands between the place where it is read and its end is told at once, and no search
has to go back in it.
-/

namespace SqlReview.Search

open SqlReview.Text

namespace Phrase

variable {cls : Char → Bool} {p q : Place}

/-- A run of blanks is read up to the next character that is none. -/
theorem read_blanks_iff : blanks.read p = some q ↔
    ∃ g, isBlankText g = true ∧ p.Before g q ∧ startsBlank q.rest = false := by
  obtain ⟨before, s⟩ := p
  constructor
  · intro h
    obtain rfl := Option.some.inj h
    exact ⟨s.takeWhile isBlank, List.all_takeWhile,
      ⟨List.takeWhile_append_dropWhile.symm, rfl⟩, startsBlank_trimStart s⟩
  · rintro ⟨g, hg, ⟨hrest, hbefore⟩, hstop⟩
    obtain ⟨before', r⟩ := q
    obtain rfl : s = g ++ r := hrest
    obtain rfl : before' = g.getLast?.or before := hbefore
    obtain ⟨htake, hdrop⟩ := span_of_head? (List.all_eq_true.mp hg) hstop
    rw [blanks, read_run, Place.skipWhile, htake, hdrop]

variable {b : Phrase}

/-- What is not read at a blank is read behind blanks where it is read behind all of them. -/
theorem read_blanks_seq_iff (hb : b.Refuses) : (seq blanks b).read p = some q ↔
    ∃ g r, isBlankText g = true ∧ p.Before g r ∧ b.read r = some q := by
  rw [read_seq, Option.bind_eq_some_iff]
  constructor
  · rintro ⟨r, hr, hq⟩
    obtain ⟨g, hg, hbefore, -⟩ := read_blanks_iff.mp hr
    exact ⟨g, r, hg, hbefore, hq⟩
  · rintro ⟨g, r, hg, hbefore, hq⟩
    have hstop : startsBlank r.rest = false := by
      rw [Bool.eq_false_iff]
      intro hr
      rw [hb r hr] at hq
      exact absurd hq (by simp)
    exact ⟨r, read_blanks_iff.mpr ⟨g, hg, hbefore, hstop⟩, hq⟩

/-- What is not read at a blank is read behind a gap where it is read behind blanks of which there
is one at least. -/
theorem read_gap_seq_iff (hb : b.Refuses) : (seq gap b).read p = some q ↔
    ∃ g r, g ≠ [] ∧ isBlankText g = true ∧ p.Before g r ∧ b.read r = some q := by
  have hread : (seq gap b).read p =
      if startsBlank p.rest then (seq blanks b).read p else none := by
    rw [read_seq, read_gap]
    split <;> rfl
  rw [hread]
  constructor
  · intro h
    split at h
    · next hstart =>
      obtain ⟨g, r, hg, hbefore, hq⟩ := (read_blanks_seq_iff hb).mp h
      refine ⟨g, r, ?_, hg, hbefore, hq⟩
      rintro rfl
      rw [hbefore.rest] at hstart
      rw [hb r hstart] at hq
      exact absurd hq (by simp)
    · exact absurd h (by simp)
  · rintro ⟨g, r, hne, hg, hbefore, hq⟩
    obtain ⟨c, g, rfl⟩ := List.exists_cons_of_ne_nil hne
    have hstart : startsBlank p.rest = true := by
      rw [hbefore.rest]
      exact List.all_eq_true.mp hg c (List.mem_cons_self ..)
    rw [if_pos hstart]
    exact (read_blanks_seq_iff hb).mpr ⟨c :: g, r, hg, hbefore, hq⟩

private theorem exists_before_concat_iff {g : List Char} :
    (∃ r, p.Before g r ∧ (one cls).read r = some q) ↔
      ∃ c, cls c = true ∧ p.Before (g ++ [c]) q := by
  simp only [read_one_iff, Place.before_append_iff]
  constructor
  · rintro ⟨r, hg, c, hc, hmark⟩
    exact ⟨c, hc, r, hg, hmark⟩
  · rintro ⟨c, hc, r, hg, hmark⟩
    exact ⟨r, hg, c, hc, hmark⟩

/-- A mark behind blanks is read where it is the first character that is none. -/
theorem read_blanks_one_iff (hcls : ∀ c, isBlank c = true → cls c = false) :
    (seq blanks (one cls)).read p = some q ↔
      ∃ g c, isBlankText g = true ∧ cls c = true ∧ p.Before (g ++ [c]) q := by
  simp only [read_blanks_seq_iff (refuses_one hcls), exists_and_left, exists_before_concat_iff]

/-- A mark behind a gap is read where it is the first character that is no blank, with a blank
before it. -/
theorem read_gap_one_iff (hcls : ∀ c, isBlank c = true → cls c = false) :
    (seq gap (one cls)).read p = some q ↔
      ∃ g c, g ≠ [] ∧ isBlankText g = true ∧ cls c = true ∧ p.Before (g ++ [c]) q := by
  simp only [read_gap_seq_iff (refuses_one hcls), exists_and_left, exists_before_concat_iff]

/-- Whether a mark behind blanks is read. -/
theorem isSome_read_blanks_one (cls : Char → Bool) (p : Place) :
    ((seq blanks (one cls)).read p).isSome = (trimStart p.rest).head?.any cls := by
  change ((one cls).read (p.skipWhile isBlank)).isSome = (p.skipWhile isBlank).rest.head?.any cls
  generalize p.skipWhile isBlank = r
  obtain ⟨before, rest⟩ := r
  cases rest with
  | nil => rfl
  | cons c s =>
    rw [read_one_cons]
    cases hc : cls c <;> simp [hc]

/-- A keyword as it stands is taken as it stands. -/
theorem takes_exactly {keyword : String} (h : ∀ k ∈ keyword.toList, cls k = true) :
    Takes cls (exactly keyword) :=
  fun _ _ hq => ⟨keyword.toList, read_exactly_iff.mp hq, h⟩

/-- A keyword as it stands takes something when it is not empty. -/
theorem moves_exactly {keyword : String} (hne : keyword.toList ≠ []) :
    (exactly keyword).Moves := by
  intro p q hq
  have hlength : 0 < keyword.toList.length := List.length_pos_iff.mpr hne
  rw [(read_exactly_iff.mp hq).rest, List.length_append]
  omega

private theorem not_isWordChar_of_isBlank (c : Char) (hc : isBlank c = true) :
    (!isWordChar c) = true := by
  rw [(solid_isWordChar .none).blank c hc]
  rfl

/-- Blanks and a mark belong to no word. -/
theorem takes_blanks_one (hcls : ∀ c, cls c = true → isWordChar c = false) :
    Takes (!isWordChar ·) (seq blanks (one cls)) :=
  (takes_run not_isWordChar_of_isBlank).seq (takes_one fun c hc => by rw [hcls c hc]; rfl)

/-- A gap and a mark belong to no word. -/
theorem takes_gap_one (hcls : ∀ c, cls c = true → isWordChar c = false) :
    Takes (!isWordChar ·) (seq gap (one cls)) :=
  ((takes_one not_isWordChar_of_isBlank).seq (takes_run not_isWordChar_of_isBlank)).seq
    (takes_one fun c hc => by rw [hcls c hc]; rfl)

/-- A mark behind blanks is read in one way, as it is no blank. -/
theorem sole_blanks_one (hcls : ∀ c, isBlank c = true → cls c = false) :
    Sole (seq blanks (one cls)) :=
  (refuses_one hcls).firstBefore_blanks.sole_seq (sole_one cls)

end Phrase

end SqlReview.Search

import Mathlib.Data.List.Basic
import SqlReview.Proofs.Search.Word

/-!
# Searches that go back

A search that goes back tries the readings of a phrase one after the other: a run takes less when
what follows cannot be read after more of it, an optional part is left out, the second of two
alternatives is taken. `readings` are all of these in the order in which they are tried. Reading is
direct when it comes to the first of them without going back.
-/

namespace SqlReview.Search

open SqlReview.Text

/-- The places to which a run of a class may be read, the last one first. -/
def placesWhile (cls : Char → Bool) (before : Option Char) : List Char → List Place
  | [] => [⟨before, []⟩]
  | c :: s => (if cls c then placesWhile cls (some c) s else []) ++ [⟨before, c :: s⟩]

/-- The places at which a phrase may end, in the order in which a search that goes back tries them:
as much of a run as there is, an optional part before none, the first of two phrases before the
second. -/
def Phrase.readings : Phrase → Place → List Place
  | .one cls, p => ((Phrase.one cls).read p).toList
  | .run cls, p => placesWhile cls p.before p.rest
  | .boundary, p => if p.atBoundary then [p] else []
  | .seq a b, p => (a.readings p).flatMap b.readings
  | .opt a, p => a.readings p ++ [p]
  | .either a b, p => a.readings p ++ b.readings p

/-- The longest reading of a run comes first, and at all others the run could go on. -/
theorem exists_placesWhile (cls : Char → Bool) (p : Place) :
    ∃ others, placesWhile cls p.before p.rest = p.skipWhile cls :: others ∧
      ∀ q ∈ others, q.rest.head?.any cls = true := by
  obtain ⟨before, s⟩ := p
  induction s generalizing before with
  | nil => exact ⟨[], rfl, by simp⟩
  | cons c s ih =>
    by_cases hc : cls c = true
    · obtain ⟨others, hplaces, hothers⟩ := ih (some c)
      refine ⟨others ++ [⟨before, c :: s⟩], ?_, ?_⟩
      · have hskip : Place.skipWhile cls ⟨before, c :: s⟩ = Place.skipWhile cls ⟨some c, s⟩ := by
          rw [Place.skipWhile, Place.skipWhile, List.takeWhile_cons_of_pos hc,
            List.dropWhile_cons_of_pos hc, List.getLast?_cons]
          cases (s.takeWhile cls).getLast? <;> rfl
        rw [placesWhile, if_pos hc, hplaces, hskip, List.cons_append]
      · intro q hq
        rcases List.mem_append.mp hq with hq | hq
        · exact hothers q hq
        · rw [List.mem_singleton.mp hq]
          exact hc
    · refine ⟨[], ?_, by simp⟩
      rw [placesWhile, if_neg hc, Place.skipWhile, List.takeWhile_cons_of_neg hc,
        List.dropWhile_cons_of_neg hc]
      rfl

namespace Phrase

variable {a b : Phrase} {p : Place}

/-- Whether a search never has to go back in a phrase. -/
def Direct (a : Phrase) : Prop :=
  ∀ p, (a.readings p).head? = a.read p

/-- Whether a phrase has no more than one reading. -/
def Sole (a : Phrase) : Prop :=
  ∀ p, a.readings p = (a.read p).toList

/-- A phrase with one reading is direct. -/
theorem Sole.direct (ha : Sole a) : Direct a := by
  intro p
  rw [ha p]
  cases a.read p <;> rfl

/-- One character is read in one way. -/
theorem sole_one (cls : Char → Bool) : Sole (.one cls) := fun _ => rfl

/-- The beginning or end of a word is read in one way. -/
theorem sole_boundary : Sole .boundary := by
  intro p
  rw [readings, read_boundary]
  split <;> rfl

/-- Whether of all readings of a phrase the first one alone can lead on to another phrase. -/
def FirstBefore (a b : Phrase) : Prop :=
  ∀ p, ∃ others, a.readings p = (a.read p).toList ++ others ∧ ∀ q ∈ others, b.read q = none

/-- A direct phrase that is not read has no readings. -/
theorem Direct.readings_eq_nil (ha : Direct a) (h : a.read p = none) : a.readings p = [] :=
  List.head?_eq_none_iff.mp ((ha p).trans h)

/-- A phrase is read behind the first reading of another one when no other leads on to it. -/
theorem FirstBefore.readings_seq (h : FirstBefore a b) (hb : Direct b) (p : Place) :
    (seq a b).readings p = (a.read p).toList.flatMap b.readings := by
  obtain ⟨others, hreadings, hothers⟩ := h p
  have hnone : others.flatMap b.readings = [] :=
    List.flatMap_eq_nil_iff.mpr fun q hq => hb.readings_eq_nil (hothers q hq)
  rw [readings, hreadings, List.flatMap_append, hnone, List.append_nil]

/-- Two phrases are direct when the second is and the first reading of the first alone leads to
it. -/
theorem FirstBefore.direct_seq (h : FirstBefore a b) (hb : Direct b) : Direct (.seq a b) := by
  intro p
  rw [h.readings_seq hb, read_seq]
  cases a.read p with
  | none => rfl
  | some q => simpa using hb q

/-- They have one reading when the second has. -/
theorem FirstBefore.sole_seq (h : FirstBefore a b) (hb : Sole b) : Sole (.seq a b) := by
  intro p
  rw [h.readings_seq hb.direct, read_seq]
  cases a.read p with
  | none => rfl
  | some q => simpa using hb q

/-- A phrase with one reading has no other that could lead on. -/
theorem Sole.firstBefore (ha : Sole a) (b : Phrase) : FirstBefore a b :=
  fun p => ⟨[], by rw [List.append_nil, ha p], by simp⟩

/-- Two phrases are read in one way when each of them is. -/
theorem Sole.seq (ha : Sole a) (hb : Sole b) : Sole (.seq a b) :=
  (ha.firstBefore b).sole_seq hb

/-- What follows a phrase with one reading is read as it is read alone. -/
theorem Sole.direct_seq (ha : Sole a) (hb : Direct b) : Direct (.seq a b) :=
  (ha.firstBefore b).direct_seq hb

/-- Phrases one after the other are read in one way when each of them is. -/
theorem sole_all {l : List Phrase} (hne : l ≠ []) (h : ∀ a ∈ l, Sole a) : Sole (.all l) :=
  all_of_ne_nil Sole.seq hne h

/-- The letters of a keyword are read in one way. -/
theorem sole_letters {keyword : String} (h : keyword.toList ≠ []) : Sole (letters keyword) := by
  refine sole_all (by simpa using h) ?_
  intro a ha
  obtain ⟨k, -, rfl⟩ := List.mem_map.mp ha
  exact sole_one _

/-- The characters of a keyword are read in one way. -/
theorem sole_exactly {keyword : String} (h : keyword.toList ≠ []) : Sole (exactly keyword) := by
  refine sole_all (by simpa using h) ?_
  intro a ha
  obtain ⟨k, -, rfl⟩ := List.mem_map.mp ha
  exact sole_one _

/-- Whether no place is there at which both of two phrases can be read. -/
def Apart (a b : Phrase) : Prop :=
  ∀ p, (a.read p).isSome = true → b.read p = none

/-- Of two phrases that are apart one is read, and in one way when each of them is. -/
theorem Sole.either (ha : Sole a) (hb : Sole b) (h : Apart a b) : Sole (.either a b) := by
  intro p
  rw [readings, read_either, ha p, hb p]
  cases hp : a.read p with
  | none => rfl
  | some q =>
    rw [h p (by rw [hp]; rfl)]
    rfl

/-- Of several phrases the first is read that can be. -/
theorem read_any (l : List Phrase) (p : Place) : (any l).read p = l.findSome? (·.read p) := by
  induction l with
  | nil =>
    obtain ⟨before, rest⟩ := p
    cases rest <;> rfl
  | cons a l ih =>
    rw [List.findSome?_cons, ← ih]
    cases l with
    | nil =>
      change a.read p = _
      cases h : a.read p with
      | none =>
        obtain ⟨before, rest⟩ := p
        cases rest <;> rfl
      | some q => rfl
    | cons b l =>
      change (a.read p).or ((any (b :: l)).read p) = _
      cases a.read p <;> rfl

/-- The readings of several phrases are tried phrase after phrase. -/
theorem readings_any (l : List Phrase) (p : Place) :
    (any l).readings p = l.flatMap (·.readings p) := by
  induction l with
  | nil =>
    obtain ⟨before, rest⟩ := p
    cases rest <;> rfl
  | cons a l ih =>
    rw [List.flatMap_cons, ← ih]
    cases l with
    | nil =>
      have hnone : (any []).readings p = [] := by
        obtain ⟨before, rest⟩ := p
        cases rest <;> rfl
      rw [hnone, List.append_nil]
      rfl
    | cons b l => rfl

/-- What is read as one of several phrases is read as it. -/
theorem exists_mem_of_read_any {l : List Phrase} {q : Place} (h : (any l).read p = some q) :
    ∃ a ∈ l, a.read p = some q := by
  rw [read_any] at h
  exact List.exists_of_findSome?_eq_some h

/-- Whether one of several phrases is read is asked of each of them. -/
theorem isSome_read_any (l : List Phrase) (p : Place) :
    ((any l).read p).isSome = l.any fun a => (a.read p).isSome := by
  rw [read_any, List.isSome_findSome?]

/-- Going back over alternatives when what follows them cannot be read is trying each alternative
with what follows, as far as none of them has a second reading. -/
theorem head?_readings_any_seq {l : List Phrase} (h : ∀ a ∈ l, Sole a) (hb : Sole b) (p : Place) :
    ((seq (any l) b).readings p).head? = (any (l.map (seq · b))).read p := by
  have hreadings : (seq (any l) b).readings p = l.flatMap fun a => ((seq a b).read p).toList := by
    rw [readings, readings_any, List.flatMap_assoc]
    exact List.flatMap_congr fun a ha => ((h a ha).seq hb) p
  rw [hreadings, List.head?_flatMap, read_any, List.findSome?_map]
  congr 1
  funext a
  exact Option.head?_toList

/-- Of phrases that are pairwise apart one at most is read, and in one way. -/
theorem sole_any {l : List Phrase} (h : ∀ a ∈ l, Sole a) (hapart : l.Pairwise Apart) :
    Sole (.any l) := by
  induction l with
  | nil => exact sole_one _
  | cons a l ih =>
    have ha := h a (List.mem_cons_self ..)
    obtain ⟨hfirst, htail⟩ := List.pairwise_cons.mp hapart
    have hl := ih (fun b hb => h b (List.mem_cons_of_mem a hb)) htail
    cases l with
    | nil => exact ha
    | cons b l =>
      refine ha.either hl fun p hp => ?_
      rw [Option.eq_none_iff_forall_ne_some]
      intro q hq
      obtain ⟨d, hd, hread⟩ := exists_mem_of_read_any hq
      rw [hfirst d hd p hp] at hread
      exact absurd hread (by simp)

/-! ### Different words -/

/-- Whether two keywords have different letters at the same place. -/
def clash (ks ls : List Char) : Bool :=
  (ks.zip ls).any fun (k, l) => k != l

/-- The small letter that a character is read as. -/
def smallLetter (c : Char) : Char :=
  if c = '\u017F' then 's' else if c = '\u212A' then 'k' else c.toLower

/-- A character is read as one letter only. -/
theorem smallLetter_eq_of_foldsTo {k c : Char} (h : foldsTo k c = true) :
    smallLetter k = smallLetter c :=
  eq_of_foldsTo (by decide) (by decide) (by decide) h

/-- What spells a keyword has the small letters of the keyword. -/
theorem map_smallLetter_eq_of_spells {ks w : List Char} (h : spells ks w = true) :
    ks.map smallLetter = w.map smallLetter := by
  induction ks generalizing w with
  | nil => rw [spells_nil_iff.mp h]
  | cons k ks ih =>
    obtain ⟨c, w, rfl, hc, hw⟩ := spells_cons_iff.mp h
    rw [List.map_cons, List.map_cons, smallLetter_eq_of_foldsTo hc, ih hw]

private theorem append_ne_of_clash {ks ls v w : List Char} (hks : ∀ k ∈ ks, k ∈ capitals)
    (hls : ∀ l ∈ ls, l ∈ capitals) (h : clash ks ls = true) (hv : spells ks v = true)
    (hw : spells ls w = true) (s t : List Char) : v ++ s ≠ w ++ t := by
  have hcapitals : ∀ k ∈ capitals, ∀ l ∈ capitals, smallLetter k = smallLetter l → k = l := by
    decide
  induction ks generalizing ls v w with
  | nil => exact absurd h (by simp [clash])
  | cons k ks ih =>
    obtain ⟨l, ls, rfl⟩ : ∃ l ls', ls = l :: ls' := by
      cases ls with
      | nil => exact absurd h (by simp [clash])
      | cons l ls => exact ⟨l, ls, rfl⟩
    obtain ⟨c, v, rfl, hc, hv⟩ := spells_cons_iff.mp hv
    obtain ⟨d, w, rfl, hd, hw⟩ := spells_cons_iff.mp hw
    intro heq
    obtain ⟨hcd, htail⟩ := List.cons.inj heq
    have hk := hks k (List.mem_cons_self ..)
    have hl := hls l (List.mem_cons_self ..)
    have hkl : k = l := hcapitals k hk l hl <|
      (smallLetter_eq_of_foldsTo hc).trans (smallLetter_eq_of_foldsTo (hcd ▸ hd)).symm
    have hclash : clash ks ls = true := by simpa [clash, hkl] using h
    exact ih (fun e he => hks e (List.mem_cons_of_mem k he))
      (fun e he => hls e (List.mem_cons_of_mem l he)) hclash hv hw htail

/-- Where a keyword stands, none stands that has another letter at the same place. -/
theorem apart_letters {keyword other : String} (hk : ∀ k ∈ keyword.toList, k ∈ capitals)
    (hl : ∀ k ∈ other.toList, k ∈ capitals) (h : clash keyword.toList other.toList = true) :
    Apart (letters keyword) (letters other) := by
  intro p hp
  obtain ⟨q, hq⟩ := Option.isSome_iff_exists.mp hp
  obtain ⟨v, hv, hbefore⟩ := read_letters_iff.mp hq
  rw [Option.eq_none_iff_forall_ne_some]
  intro r hr
  obtain ⟨w, hw, hbefore'⟩ := read_letters_iff.mp hr
  exact append_ne_of_clash hk hl h hv hw _ _ (hbefore.rest.symm.trans hbefore'.rest)

end Phrase

end SqlReview.Search

import SqlReview.Proofs.Search.Backtracking
import SqlReview.Proofs.Search.Keyword

/-!
# Reading without going back

Whether a search goes back in a phrase depends on what has to follow it. It gives up no part of a
run where what follows begins with no character of the run, no part of a gap where what follows
begins with no blank, and no optional part where what follows cannot stand in its place. So that a
phrase is direct is shown from its last part to its first one.
-/

namespace SqlReview.Search.Phrase

open SqlReview.Text

variable {a b c : Phrase} {cls cls' : Char → Bool}

/-! ### What may stand before a phrase -/

/-- Of two phrases the first reading alone leads on when each has no other that does. -/
theorem FirstBefore.seq (ha : FirstBefore a (.seq b c)) (hb : FirstBefore b c) :
    FirstBefore (.seq a b) c := by
  -- Where `b` and `c` cannot be read one after the other, no reading of `b` leads on to `c`.
  have hvain : ∀ q, (Phrase.seq b c).read q = none → ∀ r ∈ b.readings q, c.read r = none := by
    intro q hq r hr
    obtain ⟨others, hreadings, hothers⟩ := hb q
    rw [hreadings] at hr
    rcases List.mem_append.mp hr with hr | hr
    · rw [read_seq, Option.mem_toList.mp hr] at hq
      exact hq
    · exact hothers r hr
  intro p
  obtain ⟨others, hreadings, hothers⟩ := ha p
  have hrest : ∀ r ∈ others.flatMap b.readings, c.read r = none := by
    intro r hr
    obtain ⟨q, hq, hr⟩ := List.mem_flatMap.mp hr
    exact hvain q (hothers q hq) r hr
  rw [readings, hreadings, List.flatMap_append, read_seq]
  cases a.read p with
  | none => exact ⟨_, rfl, hrest⟩
  | some q =>
    obtain ⟨others', hreadings', hothers'⟩ := hb q
    refine ⟨others' ++ others.flatMap b.readings, ?_, ?_⟩
    · simp [hreadings']
    · intro r hr
      exact (List.mem_append.mp hr).elim (hothers' r) (hrest r)

/-- No part of a run is given up for what is not read where a character of the run stands. -/
theorem firstBefore_run (h : ∀ q : Place, q.rest.head?.any cls = true → b.read q = none) :
    FirstBefore (.run cls) b := by
  intro p
  obtain ⟨others, hplaces, hothers⟩ := exists_placesWhile cls p
  exact ⟨others, hplaces, fun q hq => h q (hothers q hq)⟩

/-- In particular for what begins with none of its characters. -/
theorem Opens.firstBefore_run (hb : Opens cls' b) (h : ∀ c, cls c = true → cls' c = false) :
    FirstBefore (.run cls) b := by
  refine Phrase.firstBefore_run fun q hq => ?_
  obtain ⟨c, hhead, hc⟩ := (Option.any_eq_true ..).mp hq
  obtain ⟨s, hrest⟩ := List.head?_eq_some_iff.mp hhead
  exact hb.read_eq_none hrest (h c hc)

/-- No blanks are given up for what begins with no blank. -/
theorem Refuses.firstBefore_blanks (hb : b.Refuses) : FirstBefore blanks b :=
  firstBefore_run hb

/-- Nor is a part of a gap. -/
theorem Refuses.firstBefore_gap (hb : b.Refuses) : FirstBefore gap b :=
  ((sole_one isBlank).firstBefore _).seq hb.firstBefore_blanks

/-- Behind blanks a phrase begins with a blank or as it begins without them. -/
theorem Opens.blanks (hb : Opens cls b) : Opens (fun c => isBlank c || cls c) (.seq .blanks b) := by
  rintro ⟨before, rest⟩ q hq
  rw [read_seq, Phrase.blanks, read_run, Option.bind_some] at hq
  obtain ⟨d, t, hrest, hd⟩ := hb _ q hq
  cases rest with
  | nil => exact absurd hrest (List.cons_ne_nil d t).symm
  | cons c s =>
    refine ⟨c, s, rfl, ?_⟩
    rw [Bool.or_eq_true]
    by_cases hc : isBlank c = true
    · exact .inl hc
    · rw [Place.skipWhile, List.dropWhile_cons_of_neg hc] at hrest
      rw [(List.cons.inj hrest).1]
      exact .inr hd

/-- No part of a run is given up for a mark behind blanks when neither the mark nor a blank belongs
to the run. -/
theorem firstBefore_run_mark {m : Char} (hblank : ∀ c, isBlank c = true → cls c = false)
    (hm : cls m = false) (b : Phrase) :
    FirstBefore (.run cls) (.seq .blanks (.seq (.one (· == m)) b)) := by
  refine opens_one.seq.blanks.firstBefore_run fun c hc => ?_
  rw [Bool.or_eq_false_iff, Bool.eq_false_iff, beq_eq_false_iff_ne]
  refine ⟨fun hb => ?_, ?_⟩
  · rw [hblank c hb] at hc
    exact Bool.false_ne_true hc
  · rintro rfl
    rw [hm] at hc
    exact Bool.false_ne_true hc

/-- An optional part is not left out for what cannot stand in its place. -/
theorem FirstBefore.opt (h : FirstBefore a b) (ha : Direct a) (hapart : Apart a b) :
    FirstBefore (.opt a) b := by
  intro p
  obtain ⟨others, hreadings, hothers⟩ := h p
  cases hread : a.read p with
  | none =>
    refine ⟨[], ?_, by simp⟩
    rw [readings, ha.readings_eq_nil hread, read_opt, hread]
    rfl
  | some q =>
    refine ⟨others ++ [p], ?_, fun r hr => ?_⟩
    · rw [readings, hreadings, read_opt, hread, List.append_assoc]
      rfl
    · rcases List.mem_append.mp hr with hr | hr
      · exact hothers r hr
      · rw [List.mem_singleton.mp hr]
        exact hapart p (by rw [hread]; rfl)

/-- A keyword as it stands is read where its first character stands. -/
theorem opens_exactly {keyword : String} {k : Char} {ks : List Char}
    (h : keyword.toList = k :: ks) : Opens (· == k) (exactly keyword) := by
  rw [exactly, h]
  exact opens_one.all _

/-- Phrases that begin with different characters are apart. -/
theorem Opens.apart_of_ne {m n : Char} (ha : Opens (· == m) a) (hb : Opens (· == n) b)
    (h : m ≠ n) : Apart a b := by
  intro p hp
  obtain ⟨q, hq⟩ := Option.isSome_iff_exists.mp hp
  obtain ⟨c, s, hrest, hc⟩ := ha p q hq
  exact hb.read_eq_none hrest (by rwa [beq_iff_eq.mp hc, beq_eq_false_iff_ne])

/-! ### Direct phrases -/

/-- A run is read without going back: as much of it is taken as there is. -/
theorem direct_run (cls : Char → Bool) : Direct (.run cls) := by
  intro p
  obtain ⟨others, hplaces, -⟩ := exists_placesWhile cls p
  rw [readings, hplaces]
  rfl

/-- One or more characters of a class are read without going back. -/
theorem direct_atLeastOne (cls : Char → Bool) : Direct (.atLeastOne cls) :=
  (sole_one cls).direct_seq (direct_run cls)

/-- An optional part is direct when the part is. -/
theorem Direct.opt (ha : Direct a) : Direct (.opt a) := by
  intro p
  rw [readings, List.head?_append, ha p, read_opt]
  cases a.read p <;> rfl

/-- The first of two phrases that is there is direct when both are. -/
theorem Direct.either (ha : Direct a) (hb : Direct b) : Direct (.either a b) := by
  intro p
  rw [readings, List.head?_append, ha p, hb p, read_either]

/-- The first of several phrases that is there is direct when all are. -/
theorem direct_any {l : List Phrase} (h : ∀ a ∈ l, Direct a) : Direct (.any l) :=
  any_of (sole_one _).direct Direct.either h

/-- No search comes back from a phrase that is read everywhere. -/
theorem Direct.seq_of_total (ha : Direct a) (hb : Direct b)
    (htotal : ∀ p, (b.read p).isSome = true) : Direct (.seq a b) := by
  intro p
  rw [readings, read_seq, ← ha p]
  cases hreadings : a.readings p with
  | nil => rfl
  | cons q others =>
    obtain ⟨r, hr⟩ := Option.isSome_iff_exists.mp (htotal q)
    rw [List.flatMap_cons, List.head?_append, hb q, hr, List.head?_cons, Option.bind_some, hr]
    rfl

/-! ### Words with gaps between them -/

private theorem direct_words_of {l : List Phrase} (hne : l ≠ [])
    (h : ∀ a ∈ l, Sole a ∧ a.Refuses) :
    Direct (.all (.boundary :: l.intersperse .gap ++ [.boundary])) := by
  suffices hl : Direct (.all (l.intersperse .gap ++ [.boundary])) ∧
      (Phrase.all (l.intersperse .gap ++ [.boundary])).Refuses by
    obtain ⟨a, l, rfl⟩ := List.exists_cons_of_ne_nil hne
    cases l <;> exact sole_boundary.direct_seq hl.1
  induction l with
  | nil => exact absurd rfl hne
  | cons a l ih =>
    obtain ⟨hsole, hrefuses⟩ := h a (List.mem_cons_self ..)
    cases l with
    | nil => exact ⟨hsole.direct_seq sole_boundary.direct, hrefuses.seq⟩
    | cons b l =>
      obtain ⟨hdirect, hrest⟩ := ih (List.cons_ne_nil b l) fun c hc =>
        h c (List.mem_cons_of_mem a hc)
      have hgap : Direct (.seq .gap (.all ((b :: l).intersperse .gap ++ [.boundary]))) :=
        hrest.firstBefore_gap.direct_seq hdirect
      cases l <;> exact ⟨hsole.direct_seq hgap, hrefuses.seq⟩

/-- Whole words in any case are read without going back: less of a gap would leave a blank. -/
theorem direct_words {keywords : List String} (h : AreKeywords keywords) :
    Direct (words keywords) := by
  refine direct_words_of (by simpa using h.1) fun a ha => ?_
  obtain ⟨k, hk, rfl⟩ := List.mem_map.mp ha
  exact ⟨sole_letters (h.2 k hk).1, (sought_letters (f := .none) (h.2 k hk)).refuses⟩

/-- So are whole words as they stand. -/
theorem direct_exactWords {keywords : List String} (h : AreKeywords keywords) :
    Direct (exactWords keywords) := by
  refine direct_words_of (by simpa using h.1) fun a ha => ?_
  obtain ⟨k, hk, rfl⟩ := List.mem_map.mp ha
  exact ⟨sole_exactly (h.2 k hk).1, (sought_exactly (h.2 k hk)).refuses⟩

end SqlReview.Search.Phrase

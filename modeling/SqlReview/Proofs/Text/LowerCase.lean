import SqlReview.Proofs.Text.Tidy

/-!
# Lower case

The lower case of a text is the same whatever the case of its ASCII letters, and it has a blank
where the text has one. So names are compared in lower case without regard to how they were folded
before, and a name without blanks is not taken for one with blanks.
-/

namespace SqlReview.Text

/-! ### Folded texts -/

variable (f : Folding)

private theorem meetsCased_map (s : List Char) : meetsCased (s.map f.of) = meetsCased s := by
  induction s with
  | nil => rfl
  | cons c s ih =>
    have hignorable : isCaseIgnorable (f.of c) = isCaseIgnorable c := f.eq_of (by decide) c
    have hcased : isCased (f.of c) = isCased c := f.eq_of (by decide) c
    unfold meetsCased at ih ⊢
    by_cases hc : isCaseIgnorable c = true
    · rw [List.map_cons, List.dropWhile_cons_of_pos (by rwa [hignorable]),
        List.dropWhile_cons_of_pos hc]
      exact ih
    · rw [List.map_cons, List.dropWhile_cons_of_neg (by rwa [hignorable]),
        List.dropWhile_cons_of_neg hc]
      exact hcased

private theorem lowerAfter_map (before s : List Char) :
    lowerAfter (before.map f.of) (s.map f.of) = lowerAfter before s := by
  induction s generalizing before with
  | nil => rfl
  | cons c s ih =>
    have hsigma : f.of c = '\u03A3' ↔ c = '\u03A3' := f.of_eq_iff (by decide) c
    have hchar : lowerChar (f.of c) = lowerChar c := lowerChar_eq_of_sameLetter (f.same c)
    have hrest := ih (c :: before)
    rw [List.map_cons] at hrest
    rw [List.map_cons, lowerAfter, lowerAfter, hrest, meetsCased_map, meetsCased_map, hchar]
    simp only [hsigma]

/-- The lower case of a text does not depend on the case of its letters. -/
theorem lower_map (s : List Char) : lower (s.map f.of) = lower s :=
  lowerAfter_map f [] s

/-! ### Blanks in names -/

/-- Whether a text has no blank. -/
def isBare (s : List Char) : Bool :=
  !s.any isBlank

/-- Ranges that are apart from the blanks and hold every letter. -/
private def blankless : List (Nat × Nat) :=
  [(0x21, 0x84), (0xA1, 0x167F), (0x1681, 0x1FFF), (0x2060, 0x2FFF), (0x3001, 0x10FFFF)]

/-- Whether code points from `first` to `last` are in a range without blanks. -/
private def liesApart (first last : Nat) : Bool :=
  blankless.any fun range => range.1 ≤ first && last ≤ range.2

private theorem HoldsNoBlank.of_liesApart {first last : Nat} (h : liesApart first last = true) :
    HoldsNoBlank fun b => first ≤ b.toNat && b.toNat ≤ last := by
  have hblankless : ∀ range ∈ blankless,
      HoldsNoBlank fun b => range.1 ≤ b.toNat && b.toNat ≤ range.2 := by decide +kernel
  obtain ⟨range, hrange, hin⟩ := List.any_eq_true.mp h
  intro b hb
  have hapart := hblankless range hrange b hb
  simp only [Bool.and_eq_true, decide_eq_true_eq] at hin
  simp only [Bool.and_eq_false_iff, decide_eq_false_iff_not] at hapart ⊢
  omega

private theorem caseRuns_avoid_blanks : ∀ r ∈ caseRuns,
    HoldsNoBlank (fun b => r.has b.toNat) ∧
      HoldsNoBlank fun b => r.lower ≤ b.toNat && b.toNat ≤ r.lower + (r.last - r.first) := by
  have hruns : ∀ r ∈ caseRuns, liesApart r.first r.last = true ∧
      liesApart r.lower (r.lower + (r.last - r.first)) = true := by decide +kernel
  intro r hr
  obtain ⟨hcapitals, hsmall⟩ := hruns r hr
  refine ⟨fun b hb => ?_, HoldsNoBlank.of_liesApart hsmall⟩
  have hrange : (decide (r.first ≤ b.toNat) && decide (b.toNat ≤ r.last)) = false :=
    HoldsNoBlank.of_liesApart hcapitals b hb
  simp only [CaseRun.has, hrange, Bool.false_and]

private theorem toNat_ofNat (n : Nat) : (Char.ofNat n).toNat = n ∨ (Char.ofNat n).toNat = 0 := by
  by_cases h : n.isValidChar
  · left
    rw [Char.ofNat, dif_pos h]
    rfl
  · right
    rw [Char.ofNat, dif_neg h]
    rfl

private theorem isBlank_of_run {r : CaseRun} (hr : r ∈ caseRuns) {n : Nat}
    (hn : r.has n = true) : isBlank (Char.ofNat (r.lower + (n - r.first))) = false := by
  rw [Bool.eq_false_iff]
  intro hblank
  have hlast : n ≤ r.last := by
    simp only [CaseRun.has, Bool.and_eq_true, decide_eq_true_eq] at hn
    exact hn.1.2
  rcases toNat_ofNat (r.lower + (n - r.first)) with h | h
  · have havoid := (caseRuns_avoid_blanks r hr).2.eq_false hblank
    simp only [h, Bool.and_eq_false_iff, decide_eq_false_iff_not] at havoid
    omega
  · have hzero : HoldsNoBlank (·.toNat == 0) := by decide
    exact absurd h (by simpa using hzero.eq_false hblank)

/-- A character has a blank in lower case when it is one. -/
theorem any_isBlank_lowerChar (c : Char) : (lowerChar c).any isBlank = isBlank c := by
  unfold lowerChar
  split
  · rw [List.any_cons, List.any_nil, Bool.or_false]
    exact Folding.lower.isBlank_of c
  · split
    · next h =>
      subst h
      decide
    · split
      · next r hr =>
        have hmem := List.mem_of_find?_eq_some hr
        have hhas := List.find?_some hr
        have hc : isBlank c = false := by
          rw [Bool.eq_false_iff]
          intro hblank
          rw [(caseRuns_avoid_blanks r hmem).1.eq_false hblank] at hhas
          exact Bool.false_ne_true hhas
        rw [List.any_cons, List.any_nil, Bool.or_false, hc, isBlank_of_run hmem hhas]
      · rw [List.any_cons, List.any_nil, Bool.or_false]

private theorem any_isBlank_lowerAfter (before s : List Char) :
    (lowerAfter before s).any isBlank = s.any isBlank := by
  induction s generalizing before with
  | nil => rfl
  | cons c s ih =>
    rw [lowerAfter, List.any_append, ih, List.any_cons]
    congr 1
    split
    · next h =>
      subst h
      split <;> rfl
    · exact any_isBlank_lowerChar c

/-- A name is bare in lower case when it is bare. -/
@[simp] theorem isBare_lower (s : List Char) : isBare (lower s) = isBare s := by
  rw [isBare, isBare, lower, any_isBlank_lowerAfter]

/-! ### Marks in names -/

private theorem caseRuns_lower : ∀ r ∈ caseRuns, 'k'.toNat ≤ r.lower := by
  decide +kernel

variable {m : Char}

private theorem mem_lowerChar (hm : IsMark m) (hpos : 0 < m.toNat) (hlt : m.toNat < 'k'.toNat)
    (c : Char) : m ∈ lowerChar c ↔ m = c := by
  have hk : 'k'.toNat = 107 := rfl
  unfold lowerChar
  split
  · rw [List.mem_singleton, eq_comm, eq_comm (a := m)]
    exact Folding.lower.of_eq_iff hm c
  · next hascii =>
    have hne : m ≠ c := by
      rintro rfl
      omega
    refine iff_of_false ?_ hne
    split
    · intro hmem
      simp only [List.mem_cons, List.not_mem_nil, or_false] at hmem
      rcases hmem with rfl | rfl
      · exact absurd hm (by decide)
      · exact absurd hlt (by decide)
    · split
      · next r hr =>
        rw [List.mem_singleton]
        intro heq
        have hlower := caseRuns_lower r (List.mem_of_find?_eq_some hr)
        rcases toNat_ofNat (r.lower + (c.toNat - r.first)) with h | h
        all_goals
          rw [← heq] at h
          omega
      · rwa [List.mem_singleton]

/-- A mark of ASCII stands in the lower case of a text when it stands in the text. -/
theorem mem_lower (hm : IsMark m) (hpos : 0 < m.toNat) (hlt : m.toNat < 'k'.toNat)
    (s : List Char) : m ∈ lower s ↔ m ∈ s := by
  have hafter : ∀ before, m ∈ lowerAfter before s ↔ m ∈ s := by
    induction s with
    | nil => simp [lowerAfter]
    | cons c s ih =>
      intro before
      rw [lowerAfter, List.mem_append, ih, List.mem_cons]
      apply or_congr_left
      split
      · next hc =>
        subst hc
        refine iff_of_false ?_ ?_
        · intro hmem
          split at hmem
          all_goals
            obtain rfl := List.mem_singleton.mp hmem
            exact absurd hlt (by decide)
        · rintro rfl
          exact absurd hlt (by decide)
      · exact mem_lowerChar hm hpos hlt c
  exact hafter []

/-! ### Names as they begin and as they are spelled -/

private theorem lowerChar_ne_nil (c : Char) : lowerChar c ≠ [] := by
  unfold lowerChar
  split
  · simp
  · split
    · simp
    · split <;> simp

private theorem exists_lowerAfter_cons (before : List Char) (c : Char) (s : List Char) :
    ∃ here, lowerAfter before (c :: s) = here ++ lowerAfter (c :: before) s ∧
      (here = lowerChar c ∨ ∃ d : Char, here = [d] ∧ 128 ≤ d.toNat) := by
  -- A sigma is the one character whose lower case depends on what stands around it.
  rw [lowerAfter]
  by_cases hc : c = '\u03A3'
  · refine ⟨_, rfl, .inr ?_⟩
    rw [if_pos hc]
    split
    · exact ⟨_, rfl, by decide⟩
    · exact ⟨_, rfl, by decide⟩
  · refine ⟨_, rfl, .inl ?_⟩
    rw [if_neg hc]

/-- No text but the empty one is empty in lower case. -/
theorem lower_ne_nil {s : List Char} (h : s ≠ []) : lower s ≠ [] := by
  obtain ⟨c, s, rfl⟩ := List.exists_cons_of_ne_nil h
  obtain ⟨here, hlower, hhere⟩ := exists_lowerAfter_cons [] c s
  rw [lower, hlower]
  rcases hhere with rfl | ⟨d, rfl, -⟩
  · exact List.append_ne_nil_of_left_ne_nil (lowerChar_ne_nil c) _
  · simp

/-- A text begins with a mark of ASCII where its lower case does. -/
theorem head?_of_head?_lower (hm : IsMark m) (hpos : 0 < m.toNat) (hlt : m.toNat < 'k'.toNat)
    {s : List Char} (h : (lower s).head? = some m) : s.head? = some m := by
  have hk : 'k'.toNat = 107 := rfl
  cases s with
  | nil => exact h
  | cons c s =>
    obtain ⟨here, hlower, hhere⟩ := exists_lowerAfter_cons [] c s
    rw [lower, hlower] at h
    rcases hhere with rfl | ⟨d, rfl, hd⟩
    · obtain ⟨d, rest, hd⟩ := List.exists_cons_of_ne_nil (lowerChar_ne_nil c)
      rw [hd] at h
      obtain rfl := Option.some.inj h
      rw [List.head?_cons, (mem_lowerChar hm hpos hlt c).mp (by simp [hd])]
    · obtain rfl := Option.some.inj h
      omega

private theorem caseRuns_ascii : ∀ r ∈ caseRuns,
    128 ≤ r.lower ∨ r.first = r.last ∧ r.lower = 'k'.toNat := by
  decide +kernel

private theorem isAscii_of_lowerChar {c : Char}
    (h : ∀ d ∈ lowerChar c, 0 < d.toNat ∧ d.toNat < 128 ∧ d ≠ 'k') : c.toNat < 128 := by
  by_cases hascii : c.toNat < 128
  · exact hascii
  unfold lowerChar at h
  rw [if_neg hascii] at h
  split at h
  · have hdot := (h '\u0307' (by simp)).2.1
    exact absurd hdot (by decide)
  · split at h
    · next r hr =>
      obtain ⟨hpos, hlt, hne⟩ := h _ (List.mem_singleton.mpr rfl)
      have hhas := List.find?_some hr
      simp only [CaseRun.has, Bool.and_eq_true, decide_eq_true_eq] at hhas
      have hnat := (toNat_ofNat (r.lower + (c.toNat - r.first))).resolve_right (by omega)
      rcases caseRuns_ascii r (List.mem_of_find?_eq_some hr) with hlower | ⟨hrun, hlower⟩
      · omega
      · have hkelvin : r.lower + (c.toNat - r.first) = 'k'.toNat := by omega
        exact absurd (by rw [hkelvin, Char.ofNat_toNat]) hne
    · exact absurd (h c (List.mem_singleton.mpr rfl)).2.1 hascii

/-- In ASCII the lower case is that of the ASCII letters. -/
theorem lower_of_ascii {s : List Char} (h : ∀ c ∈ s, c.toNat < 128) : lower s = lowerAscii s := by
  have hafter : ∀ before, lowerAfter before s = lowerAscii s := by
    induction s with
    | nil => exact fun _ => rfl
    | cons c s ih =>
      intro before
      have hc := h c (List.mem_cons_self ..)
      have hsigma : c ≠ '\u03A3' := by
        rintro rfl
        exact absurd hc (by decide)
      rw [lowerAfter, if_neg hsigma, lowerChar, if_pos hc,
        ih fun d hd => h d (List.mem_cons_of_mem c hd)]
      rfl
  exact hafter []

/-- A text whose lower case is in ASCII and has no k is in ASCII itself. -/
theorem isAscii_of_lower {s : List Char}
    (h : ∀ d ∈ lower s, 0 < d.toNat ∧ d.toNat < 128 ∧ d ≠ 'k') : ∀ c ∈ s, c.toNat < 128 := by
  have hafter : ∀ before, (∀ d ∈ lowerAfter before s, 0 < d.toNat ∧ d.toNat < 128 ∧ d ≠ 'k') →
      ∀ c ∈ s, c.toNat < 128 := by
    clear h
    induction s with
    | nil => simp
    | cons c s ih =>
      intro before h
      obtain ⟨here, hlower, hhere⟩ := exists_lowerAfter_cons before c s
      rw [hlower] at h
      have hrest := ih (c :: before) fun d hd => h d (List.mem_append_right here hd)
      intro e he
      rcases List.mem_cons.mp he with rfl | he
      · rcases hhere with rfl | ⟨d, rfl, hd⟩
        · exact isAscii_of_lowerChar fun d hd => h d (List.mem_append_left _ hd)
        · have hlt := (h d (List.mem_cons_self ..)).2.1
          omega
      · exact hrest e he
  exact hafter [] h

/-- A keyword of ASCII that is written without the letter k is spelled by a text where the lower
case of the text spells it. -/
theorem sameText_of_sameText_lower {s k : List Char}
    (hk : ∀ c ∈ k, 0 < c.toLower.toNat ∧ c.toLower.toNat < 128 ∧ c.toLower ≠ 'k')
    (h : sameText (lower s) k = true) : sameText s k = true := by
  have hsame := sameText_iff.mp h
  have hascii : ∀ d ∈ lower s, 0 < d.toNat ∧ d.toNat < 128 ∧ d ≠ 'k' := by
    intro d hd
    have hlow : d.toLower ∈ lowerAscii k := hsame ▸ List.mem_map_of_mem hd
    obtain ⟨e, he, hed⟩ := List.mem_map.mp hlow
    obtain ⟨hpos, hlt, hne⟩ := hk e he
    rw [hed] at hpos hlt hne
    have hbound : decide (0 < d.toLower.toNat ∧ d.toLower.toNat < 128) =
        decide (0 < d.toNat ∧ d.toNat < 128) :=
      Folding.lower.eq_of (g := fun c => decide (0 < c.toNat ∧ c.toNat < 128)) (by decide) d
    rw [decide_eq_true (And.intro hpos hlt)] at hbound
    obtain ⟨hdpos, hdlt⟩ := of_decide_eq_true hbound.symm
    refine ⟨hdpos, hdlt, ?_⟩
    rintro rfl
    exact hne rfl
  have htwice : lowerAscii (lowerAscii s) = lowerAscii s := by
    rw [lowerAscii, lowerAscii, List.map_map]
    exact List.map_congr_left fun c _ => toLower_toLower c
  rw [lower_of_ascii (isAscii_of_lower hascii), htwice] at hsame
  exact sameText_iff.mpr hsame

/-! ### Tidy names -/

/-- A tidy text is bare when the text is. -/
@[simp] theorem isBare_tidy (s : List Char) : isBare (tidy f s) = isBare s := by
  unfold isBare
  fun_induction tidy f s with
  | case1 => rfl
  | case2 c s hc hs ih =>
    obtain ⟨d, t, rfl, hd⟩ := exists_of_startsBlank hs
    rw [ih, List.any_cons, List.any_cons, List.any_cons, hd, hc]
    rfl
  | case3 c s hc hs ih =>
    rw [List.any_cons, List.any_cons, hc]
    rfl
  | case4 c s hc ih =>
    rw [List.any_cons, List.any_cons, f.isBlank_of, Bool.not_or, Bool.not_or, ih]

/-- A bare text is folded character by character. -/
theorem tidy_of_isBare {s : List Char} (h : isBare s = true) : tidy f s = s.map f.of := by
  induction s with
  | nil => rfl
  | cons c s ih =>
    have hcs : isBlank c = false ∧ isBare s = true := by simpa [isBare] using h
    rw [tidy_cons f hcs.1, ih hcs.2]
    rfl

/-- A bare name is the same in lower case, tidy or not. -/
theorem lower_tidy {s : List Char} (h : isBare s = true) : lower (tidy f s) = lower s := by
  rw [tidy_of_isBare f h, lower_map]

/-- A folded text is the same text up to the case of letters. -/
theorem sameText_map (s t : List Char) : sameText (s.map f.of) t = sameText s t := by
  have hlower : lowerAscii (s.map f.of) = lowerAscii s := by
    rw [lowerAscii, lowerAscii, List.map_map]
    apply List.map_congr_left
    intro c _
    simpa [sameLetter] using f.same c
  rw [sameText, sameText, hlower]

/-- A keyword is spelled by a tidy text when it is spelled by the text. -/
theorem sameText_tidy {keyword : String} (hk : IsKeyword keyword) (s : List Char) :
    sameText (tidy f s) keyword.toList = sameText s keyword.toList := by
  have hfold : ∀ t : List Char, isBare (lowerAscii t) = isBare t := by
    intro t
    rw [isBare, isBare, lowerAscii, List.any_map]
    congr 2
    funext c
    exact Folding.lower.isBlank_of c
  by_cases hs : isBare s = true
  · rw [tidy_of_isBare f hs, sameText_map]
  · have hbare : isBare keyword.toList = true := by
      simpa [isBare] using hk.2
    have hne : ∀ t, isBare t = false → sameText t keyword.toList = false := by
      intro t ht
      rw [Bool.eq_false_iff]
      intro h
      rw [← hfold, sameText_iff.mp h, hfold, hbare] at ht
      exact absurd ht (by decide)
    rw [hne s (by simpa using hs), hne _ (by rw [isBare_tidy]; simpa using hs)]

end SqlReview.Text

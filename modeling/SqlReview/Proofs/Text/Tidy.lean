import SqlReview.Proofs.Text.Folding

/-!
# Tidy texts

A text is tidied by writing every run of blanks as one space and every letter as a folding has it.
What a scan finds in the tidy text is what it finds in the text, tidied: two texts that differ in
their layout or in the case of their letters are compared by way of the one tidy text.
-/

namespace SqlReview.Text

/-! ### Blanks at the start -/

/-- Whether a text begins with a blank. -/
def startsBlank (s : List Char) : Bool :=
  s.head?.any isBlank

/-- A text that begins with a blank. -/
theorem exists_of_startsBlank {s : List Char} (h : startsBlank s = true) :
    ∃ c t, s = c :: t ∧ isBlank c = true := by
  cases s with
  | nil => exact absurd h (by decide)
  | cons c t => exact ⟨c, t, rfl, by simpa [startsBlank] using h⟩

/-- After the blanks that a text begins with stands no further one. -/
@[simp] theorem startsBlank_trimStart (s : List Char) : startsBlank (trimStart s) = false := by
  have h := List.head?_dropWhile_not isBlank s
  unfold startsBlank trimStart
  cases hs : (s.dropWhile isBlank).head? with
  | none => rfl
  | some c =>
    rw [hs] at h
    exact h

/-- A text that begins with no blank has none before it. -/
theorem takeWhile_isBlank_of_startsBlank {s : List Char} (h : startsBlank s = false) :
    s.takeWhile isBlank = [] := by
  cases s with
  | nil => rfl
  | cons c s => exact List.takeWhile_cons_of_neg (by simpa [startsBlank] using h)

/-! ### Tidying -/

/-- A text with every run of blanks as one space, and its letters folded. -/
def tidy (f : Folding) : List Char → List Char
  | [] => []
  | c :: s =>
    if isBlank c then if startsBlank s then tidy f s else ' ' :: tidy f s
    else f.of c :: tidy f s

/-- A character as a tidy text has it. -/
def tidyChar (f : Folding) (c : Char) : Char :=
  if isBlank c then ' ' else f.of c

variable (f : Folding)

/-- The empty text is tidy. -/
@[simp] theorem tidy_nil : tidy f [] = [] := rfl

/-- A character that is no blank stays in its place. -/
theorem tidy_cons {c : Char} (h : isBlank c = false) (s : List Char) :
    tidy f (c :: s) = f.of c :: tidy f s := by
  rw [tidy, if_neg (by simp [h])]

/-- A blank before another one makes no difference. -/
theorem tidy_blank_of_startsBlank {c : Char} (h : isBlank c = true) {s : List Char}
    (hs : startsBlank s = true) : tidy f (c :: s) = tidy f s := by
  rw [tidy, if_pos h, if_pos hs]

/-- The last blank of a run is written as a space. -/
theorem tidy_blank {c : Char} (h : isBlank c = true) {s : List Char} (hs : startsBlank s = false) :
    tidy f (c :: s) = ' ' :: tidy f s := by
  rw [tidy, if_pos h, if_neg (by simp [hs])]

/-- A character is a blank in the tidy text when it is one in the text. -/
@[simp] theorem isBlank_tidyChar (c : Char) : isBlank (tidyChar f c) = isBlank c := by
  unfold tidyChar
  split
  · next h =>
    rw [h]
    decide
  · exact f.isBlank_of c

/-- A solid class holds a character when it holds the tidy one. -/
theorem Solid.tidyChar {f : Folding} {cls : Char → Bool} (h : Solid f cls) (c : Char) :
    cls (tidyChar f c) = cls c := by
  unfold Text.tidyChar
  split
  · next hc => rw [h.blank c hc, h.blank ' ' (by decide)]
  · exact h.fold c

/-- A tidy text begins with the first character of the text, tidied. -/
@[simp] theorem head?_tidy (s : List Char) : (tidy f s).head? = s.head?.map (tidyChar f) := by
  fun_induction tidy f s with
  | case1 => rfl
  | case2 c s hc hs ih =>
    obtain ⟨d, t, rfl, hd⟩ := exists_of_startsBlank hs
    rw [ih]
    simp [tidyChar, hc, hd]
  | case3 c s hc hs ih => simp [tidyChar, hc]
  | case4 c s hc ih => simp [tidyChar, hc]

/-- A class that tells no more of a tidy character tells no more of how a tidy text begins. -/
theorem any_head?_tidy {cls : Char → Bool} (h : ∀ c, cls (tidyChar f c) = cls c) (s : List Char) :
    (tidy f s).head?.any cls = s.head?.any cls := by
  rw [head?_tidy]
  cases s with
  | nil => rfl
  | cons c s => exact h c

/-- A tidy text begins with a blank when the text does. -/
@[simp] theorem startsBlank_tidy (s : List Char) : startsBlank (tidy f s) = startsBlank s :=
  any_head?_tidy f (isBlank_tidyChar f) s

/-- Where a part of a text begins with no blank, the parts can be tidied one by one. -/
theorem tidy_append (x : List Char) {y : List Char} (h : startsBlank y = false) :
    tidy f (x ++ y) = tidy f x ++ tidy f y := by
  have hstarts : ∀ x, startsBlank (x ++ y) = startsBlank x := by
    intro x
    cases x with
    | nil => exact h
    | cons c x => rfl
  fun_induction tidy f x with
  | case1 => rfl
  | case2 c x hc hx ih =>
    rw [List.cons_append, tidy_blank_of_startsBlank f hc (by rw [hstarts, hx]), ih]
  | case3 c x hc hx ih =>
    rw [List.cons_append, tidy_blank f hc (by rw [hstarts]; simpa using hx), ih]
    rfl
  | case4 c x hc ih =>
    rw [List.cons_append, tidy_cons f (by simpa using hc), ih]
    rfl

/-- The blanks that a text begins with can be dropped before or after tidying. -/
theorem trimStart_tidy (s : List Char) : trimStart (tidy f s) = tidy f (trimStart s) := by
  unfold trimStart
  fun_induction tidy f s with
  | case1 => rfl
  | case2 c s hc hs ih => rw [List.dropWhile_cons_of_pos hc, ih]
  | case3 c s hc hs ih => rw [List.dropWhile_cons_of_pos hc, List.dropWhile_cons_of_pos rfl, ih]
  | case4 c s hc ih =>
    rw [List.dropWhile_cons_of_neg hc, List.dropWhile_cons_of_neg (by simpa using hc),
      tidy_cons f (by simpa using hc)]

/-- A blank is one space together with the blanks after it. -/
theorem tidy_blank_cons {c : Char} (h : isBlank c = true) (s : List Char) :
    tidy f (c :: s) = ' ' :: tidy f (trimStart s) := by
  induction s generalizing c with
  | nil => exact tidy_blank f h rfl
  | cons d s ih =>
    by_cases hd : isBlank d = true
    · have htrim : trimStart (d :: s) = trimStart s := List.dropWhile_cons_of_pos hd
      rw [tidy_blank_of_startsBlank f h (by simpa [startsBlank] using hd), ih hd, htrim]
    · have htrim : trimStart (d :: s) = d :: s := List.dropWhile_cons_of_neg hd
      rw [tidy_blank f h (by simpa [startsBlank] using hd), htrim]

/-- Blanks before a text are dropped whatever they are. -/
theorem trimStart_append {v : List Char} (hv : isBlankText v = true) (s : List Char) :
    trimStart (v ++ s) = trimStart s :=
  List.dropWhile_append_of_pos (by simpa [isBlankText] using hv)

/-- Blanks before a text are one space. -/
theorem tidy_blanks_append {v : List Char} (hv : v ≠ []) (hb : isBlankText v = true)
    (s : List Char) : tidy f (v ++ s) = ' ' :: tidy f (trimStart s) := by
  obtain ⟨c, v, rfl⟩ := List.exists_cons_of_ne_nil hv
  obtain ⟨hc, hb⟩ : isBlank c = true ∧ isBlankText v = true := by simpa [isBlankText] using hb
  rw [List.cons_append, tidy_blank_cons f hc, trimStart_append hb]

/-- One run of blanks in a text is as good as another. -/
theorem tidy_blanks_congr {v w : List Char} (hv : v ≠ []) (hw : w ≠ [])
    (hbv : isBlankText v = true) (hbw : isBlankText w = true) (a b : List Char) :
    tidy f (a ++ v ++ b) = tidy f (a ++ w ++ b) := by
  have hrun : tidy f (v ++ b) = tidy f (w ++ b) := by
    rw [tidy_blanks_append f hv hbv, tidy_blanks_append f hw hbw]
  rw [List.append_assoc, List.append_assoc]
  induction a with
  | nil => exact hrun
  | cons c a ih =>
    have hstarts : startsBlank (a ++ (v ++ b)) = startsBlank (a ++ (w ++ b)) := by
      rw [← startsBlank_tidy f, ih, startsBlank_tidy]
    rw [List.cons_append, List.cons_append, tidy, tidy, hstarts, ih]

/-! ### Parts of a tidy text -/

/-- A tidy part is a part of the tidy text. -/
theorem tidy_suffix {a s : List Char} (h : a <:+ s) : tidy f a <:+ tidy f s := by
  induction s with
  | nil =>
    obtain rfl := List.eq_nil_of_suffix_nil h
    exact List.suffix_refl _
  | cons c s ih =>
    rcases List.suffix_cons_iff.mp h with rfl | h
    · exact List.suffix_refl _
    · rw [tidy]
      split
      · split
        · exact ih h
        · exact (ih h).trans (List.suffix_cons ..)
      · exact (ih h).trans (List.suffix_cons ..)

/-- A part that a character other than a blank stands before is told by the tidy part. -/
theorem eq_of_tidy_eq {s a b : List Char} {c d : Char} (ha : c :: a <:+ s) (hb : d :: b <:+ s)
    (hc : isBlank c = false) (hd : isBlank d = false) (h : tidy f a = tidy f b) : a = b := by
  have hshorter : ∀ {a b : List Char} {c : Char}, isBlank c = false → c :: a <:+ b →
      (tidy f a).length < (tidy f b).length := by
    intro a b c hc hsuffix
    have hle := (tidy_suffix f hsuffix).length_le
    rw [tidy_cons f hc, List.length_cons] at hle
    exact hle
  rcases List.suffix_or_suffix_of_suffix ha hb with hab | hba
  · rcases List.suffix_cons_iff.mp hab with heq | hab
    · exact (List.cons.inj heq).2
    · exact absurd (congrArg List.length h) (Nat.ne_of_lt (hshorter hc hab))
  · rcases List.suffix_cons_iff.mp hba with heq | hba
    · exact (List.cons.inj heq).2.symm
    · exact absurd (congrArg List.length h).symm (Nat.ne_of_lt (hshorter hd hba))

/-! ### Tidying backwards -/

/-- A last character that is no blank stays last. -/
theorem tidy_concat {c : Char} (h : isBlank c = false) (s : List Char) :
    tidy f (s ++ [c]) = tidy f s ++ [f.of c] := by
  rw [tidy_append f s (by simpa [startsBlank] using h), tidy_cons f h, tidy_nil]

/-- A last blank is a space of its own when no blank stands before it. -/
theorem tidy_concat_blank {c : Char} (h : isBlank c = true) (s : List Char) :
    tidy f (s ++ [c]) = if s.getLast?.any isBlank then tidy f s else tidy f s ++ [' '] := by
  induction s with
  | nil => exact tidy_blank f h rfl
  | cons d s ih =>
    cases s with
    | nil =>
      by_cases hd : isBlank d = true
      · simp [tidy, hd, h, startsBlank]
      · simp [tidy, hd, h, startsBlank]
    | cons e s =>
      have hstarts : startsBlank (e :: s ++ [c]) = startsBlank (e :: s) := rfl
      rw [List.cons_append, tidy, hstarts, ih, List.getLast?_cons_cons, tidy.eq_2 f d]
      split <;> split <;> (try split) <;> rfl

/-- A text can be tidied from its end. -/
theorem tidy_reverse (s : List Char) : tidy f s.reverse = (tidy f s).reverse := by
  induction s with
  | nil => rfl
  | cons c s ih =>
    rw [List.reverse_cons]
    by_cases hc : isBlank c = true
    · have hlast : s.reverse.getLast?.any isBlank = startsBlank s := by
        rw [List.getLast?_reverse, startsBlank]
      rw [tidy_concat_blank f hc, hlast, ih, tidy, if_pos hc]
      by_cases hs : startsBlank s = true
      · rw [if_pos hs, if_pos hs]
      · rw [if_neg hs, if_neg hs, List.reverse_cons]
    · rw [tidy_concat f (by simpa using hc), ih, tidy_cons f (by simpa using hc), List.reverse_cons]

/-- The blanks at either end can be dropped before or after tidying. -/
theorem trim_tidy (s : List Char) : trim (tidy f s) = tidy f (trim s) := by
  have hend : ∀ s, trimEnd (tidy f s) = tidy f (trimEnd s) := by
    intro s
    have h := trimStart_tidy f s.reverse
    rw [trimStart, trimStart, tidy_reverse] at h
    rw [trimEnd, trimEnd, tidy_reverse, h]
  rw [trim, trim, trimStart_tidy, hend]

/-! ### Runs of characters -/

/-- Characters of a class before a text that begins with none are the run that the two begin
with. -/
theorem span_of_head? {cls : Char → Bool} {w s : List Char} (hw : ∀ c ∈ w, cls c = true)
    (hs : s.head?.any cls = false) :
    (w ++ s).takeWhile cls = w ∧ (w ++ s).dropWhile cls = s := by
  rw [List.takeWhile_append_of_pos hw, List.dropWhile_append_of_pos hw]
  cases s with
  | nil => exact ⟨List.append_nil w, rfl⟩
  | cons c s =>
    have hc : ¬ cls c = true := by simpa using hs
    rw [List.takeWhile_cons_of_neg hc, List.dropWhile_cons_of_neg hc, List.append_nil]
    exact ⟨rfl, rfl⟩

/-- A run of a solid class is a run of the tidy text. -/
theorem takeWhile_tidy {cls : Char → Bool} (h : Solid f cls) (s : List Char) :
    (tidy f s).takeWhile cls = (s.takeWhile cls).map f.of := by
  induction s with
  | nil => rfl
  | cons c s ih =>
    by_cases hb : isBlank c = true
    · rw [tidy_blank_cons f hb, List.takeWhile_cons_of_neg (by simp [h.blank ' ' rfl]),
        List.takeWhile_cons_of_neg (by simp [h.blank c hb])]
      rfl
    · rw [tidy_cons f (by simpa using hb)]
      by_cases hc : cls c = true
      · rw [List.takeWhile_cons_of_pos (by rwa [h.fold]), List.takeWhile_cons_of_pos hc, ih]
        rfl
      · rw [List.takeWhile_cons_of_neg (by rwa [h.fold]), List.takeWhile_cons_of_neg hc]
        rfl

/-- What follows a run of a solid class follows it in the tidy text. -/
theorem dropWhile_tidy {cls : Char → Bool} (h : Solid f cls) (s : List Char) :
    (tidy f s).dropWhile cls = tidy f (s.dropWhile cls) := by
  induction s with
  | nil => rfl
  | cons c s ih =>
    by_cases hb : isBlank c = true
    · rw [List.dropWhile_cons_of_neg (by simp [h.blank c hb]), tidy_blank_cons f hb,
        List.dropWhile_cons_of_neg (by simp [h.blank ' ' rfl])]
    · rw [tidy_cons f (by simpa using hb)]
      by_cases hc : cls c = true
      · rw [List.dropWhile_cons_of_pos (by rwa [h.fold]), List.dropWhile_cons_of_pos hc, ih]
      · rw [List.dropWhile_cons_of_neg (by rwa [h.fold]), List.dropWhile_cons_of_neg hc,
          tidy_cons f (by simpa using hb)]

/-- A run of a class that holds every blank is a run of the tidy text, tidied, and so is what
follows it. -/
theorem span_tidy {p : Char → Bool} (hblank : ∀ c, isBlank c = true → p c = true)
    (hfold : ∀ c, p (f.of c) = p c) (s : List Char) :
    (tidy f s).takeWhile p = tidy f (s.takeWhile p) ∧
      (tidy f s).dropWhile p = tidy f (s.dropWhile p) := by
  have hstarts : ∀ s : List Char, startsBlank (s.takeWhile p) = startsBlank s := by
    intro s
    cases s with
    | nil => rfl
    | cons c s =>
      by_cases hc : isBlank c = true
      · rw [List.takeWhile_cons_of_pos (hblank c hc)]
        rfl
      · rw [List.takeWhile_cons]
        split
        · rfl
        · simp [startsBlank, hc]
  fun_induction tidy f s with
  | case1 => exact ⟨rfl, rfl⟩
  | case2 c s hc hs ih =>
    rw [List.takeWhile_cons_of_pos (hblank c hc), List.dropWhile_cons_of_pos (hblank c hc),
      tidy_blank_of_startsBlank f hc (by rw [hstarts, hs])]
    exact ih
  | case3 c s hc hs ih =>
    have hspace : p ' ' = true := hblank ' ' rfl
    rw [List.takeWhile_cons_of_pos (hblank c hc), List.dropWhile_cons_of_pos (hblank c hc),
      List.takeWhile_cons_of_pos hspace, List.dropWhile_cons_of_pos hspace, ih.1,
      tidy_blank f hc (by rw [hstarts]; simpa using hs)]
    exact ⟨rfl, ih.2⟩
  | case4 c s hc ih =>
    by_cases hp : p c = true
    · have hp' : p (f.of c) = true := by rwa [hfold]
      rw [List.takeWhile_cons_of_pos hp, List.dropWhile_cons_of_pos hp,
        List.takeWhile_cons_of_pos hp', List.dropWhile_cons_of_pos hp', ih.1,
        tidy_cons f (by simpa using hc)]
      exact ⟨rfl, ih.2⟩
    · have hp' : ¬ p (f.of c) = true := by rwa [hfold]
      rw [List.takeWhile_cons_of_neg hp, List.dropWhile_cons_of_neg hp,
        List.takeWhile_cons_of_neg hp', List.dropWhile_cons_of_neg hp',
        tidy_cons f (by simpa using hc)]
      exact ⟨rfl, rfl⟩

/-- The blanks that a tidy text begins with are one space, if there are any. -/
theorem takeWhile_isBlank_tidy (s : List Char) :
    (tidy f s).takeWhile isBlank = if startsBlank s then [' '] else [] := by
  by_cases hs : startsBlank s = true
  · obtain ⟨c, t, rfl, hc⟩ := exists_of_startsBlank hs
    have hrest : (tidy f (trimStart t)).takeWhile isBlank = [] := by
      apply takeWhile_isBlank_of_startsBlank
      rw [startsBlank_tidy, startsBlank_trimStart]
    rw [if_pos hs, tidy_blank_cons f hc, List.takeWhile_cons_of_pos rfl, hrest]
  · rw [if_neg hs]
    apply takeWhile_isBlank_of_startsBlank
    rw [startsBlank_tidy]
    simpa using hs

/-- The first word of a tidy text is the first word of the text. -/
theorem firstWord?_tidy (s : List Char) :
    firstWord? (tidy f s) = (firstWord? s).map (·.map f.of) := by
  rw [firstWord?, firstWord?, trimStart_tidy, takeWhile_tidy f (solid_not_isBlank f)]
  cases (trimStart s).takeWhile (!isBlank ·) <;> rfl

/-! ### Texts that are alike -/

/-- Texts that are equal up to the case of their letters are one tidy text in lower case. -/
theorem tidy_lower_congr {s t : List Char} (h : sameText s t = true) :
    tidy .lower s = tidy .lower t := by
  have hfold : ∀ s, tidy .lower (lowerAscii s) = tidy .lower s := by
    intro s
    induction s with
    | nil => rfl
    | cons c s ih =>
      have hb : isBlank c.toLower = isBlank c := Folding.lower.isBlank_of c
      have hstarts : startsBlank (lowerAscii s) = startsBlank s := by
        rw [← startsBlank_tidy .lower, ih, startsBlank_tidy]
      change tidy .lower (c.toLower :: lowerAscii s) = _
      rw [tidy, tidy, hb, hstarts, ih]
      rw [show Folding.lower.of c.toLower = Folding.lower.of c from toLower_toLower c]
  rw [← hfold s, sameText_iff.mp h, hfold]

end SqlReview.Text

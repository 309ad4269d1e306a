import SqlReview.Proofs.Query.Scan
import SqlReview.Query.SelectList

/-!
# Parts of a tidy text

A part of a text that ends before a character that is no blank is a part of the tidy text, tidied:
the select list, the body of a clause and the parts between separators.
-/

namespace SqlReview.Query

open SqlReview.Text SqlReview.Lexical

variable (f : Folding)

/-! ### Before a `FROM` -/

/-- A blank belongs to the text before a `FROM`. -/
theorem beforeFrom?_blank {c : Char} (hc : isBlank c = true) (d : Nat) (b : Bool) (s : List Char) :
    beforeFrom? d b (c :: s) = (beforeFrom? d false s).map (c :: ·) := by
  have hkey := startsWith_blank isKeyword_from hc s
  rw [beforeFrom?, hkey, isNameChar_of_isBlank hc, beq_of_isBlank (k := ')') hc (by decide),
    beq_of_isBlank (k := '(') hc (by decide)]
  simp

private theorem startsBlank_beforeFrom? {d : Nat} {b : Bool} {s t : List Char}
    (h : beforeFrom? d b s = some t) : startsBlank t = startsBlank s := by
  cases s with
  | nil => exact absurd h (by simp [beforeFrom?])
  | cons c s =>
    by_cases hc : isBlank c = true
    · rw [beforeFrom?_blank hc] at h
      obtain ⟨u, -, rfl⟩ := Option.map_eq_some_iff.mp h
      rfl
    · rw [beforeFrom?] at h
      split at h
      · exact absurd h (by simp)
      · split at h
        · obtain rfl := Option.some.inj h
          simp [startsBlank, hc]
        · obtain ⟨u, -, rfl⟩ := Option.map_eq_some_iff.mp h
          rfl

/-- What stands before a `FROM` of the tidy text is what stands before the `FROM`, tidied. -/
theorem beforeFrom?_tidy (d : Nat) (b : Bool) (s : List Char) :
    beforeFrom? d b (tidy f s) = (beforeFrom? d b s).map (tidy f) := by
  induction s generalizing d b with
  | nil => rfl
  | cons c s ih =>
    by_cases hc : isBlank c = true
    · rw [beforeFrom?_blank hc]
      by_cases hs : startsBlank s = true
      · obtain ⟨e, t, rfl, he⟩ := exists_of_startsBlank hs
        have hname : beforeFrom? d b (e :: t) = beforeFrom? d false (e :: t) := by
          rw [beforeFrom?_blank he, beforeFrom?_blank he]
        rw [tidy_blank_of_startsBlank f hc hs, ih, hname]
        cases ht : beforeFrom? d false (e :: t) with
        | none => rfl
        | some u =>
          have hu := startsBlank_beforeFrom? ht
          rw [Option.map_some, Option.map_some, Option.map_some,
            tidy_blank_of_startsBlank f hc (by rw [hu, hs])]
      · have hs' : startsBlank s = false := by simpa using hs
        rw [tidy_blank f hc hs', beforeFrom?_blank rfl, ih]
        cases ht : beforeFrom? d false s with
        | none => rfl
        | some u =>
          have hu := startsBlank_beforeFrom? ht
          rw [Option.map_some, Option.map_some, Option.map_some, Option.map_some,
            tidy_blank f hc (by rw [hu, hs'])]
    · have hsolid : isBlank c = false := by simpa using hc
      have hkey := startsWith_tidy f isKeyword_from (c :: s)
      rw [tidy_cons f hsolid] at hkey ⊢
      rw [beforeFrom?, beforeFrom?, f.isNameChar_of, hkey, f.of_beq (k := '(') (by decide),
        f.of_beq (k := ')') (by decide)]
      split
      · rfl
      · split
        · rfl
        · simp only [ih, Option.map_map]
          congr 1
          funext u
          exact (tidy_cons f hsolid u).symm

/-! ### Up to the end of a clause -/

variable {stops : List String}

/-- A clause ends before a character as where nothing follows, when no name goes on. -/
theorem endsBefore_append (hstops : ∀ k ∈ stops, ∀ c ∈ k.toList, isNameChar c = true)
    {z : List Char} (hz : startsInName z = false) (depth : Nat) (inName : Bool) (c : Char)
    (u : List Char) :
    endsBefore stops depth inName c (u ++ z) = endsBefore stops depth inName c u := by
  have hany : startsWithAny stops (c :: u ++ z) = startsWithAny stops (c :: u) := by
    rw [startsWithAny, startsWithAny, Bool.eq_iff_iff, List.any_eq_true, List.any_eq_true]
    apply exists_congr
    intro k
    apply and_congr_right
    intro hk
    rw [startsWith, startsWith, afterKeyword?_append_of_startsInName (hstops k hk) hz,
      Option.isSome_map]
  rw [List.cons_append] at hany
  rw [endsBefore, endsBefore, hany]

private theorem depthAfter_of (d : Nat) (c : Char) : depthAfter d (f.of c) = depthAfter d c := by
  rw [depthAfter, depthAfter, f.of_beq (k := '(') (by decide), f.of_beq (k := ')') (by decide)]

private theorem depthAfter_blank (d : Nat) {c : Char} (hc : isBlank c = true) :
    depthAfter d c = d := by
  rw [depthAfter, beq_of_isBlank hc (by decide), beq_of_isBlank hc (by decide)]
  simp

private theorem endsBefore_blank {c : Char} (hc : isBlank c = true) (d : Nat)
    (b : Bool) (s : List Char) : endsBefore stops d b c s = false := by
  rw [endsBefore, isNameChar_of_isBlank hc, beq_of_isBlank hc (by decide),
    beq_of_isBlank hc (by decide)]
  simp

/-- A clause of the tidy text ends before a character where the clause of the text does. -/
theorem endsBefore_tidy (h : ∀ k ∈ stops, IsKeyword k) {c : Char} (hc : isBlank c = false) (d : Nat)
    (b : Bool) (s : List Char) :
    endsBefore stops d b (f.of c) (tidy f s) = endsBefore stops d b c s := by
  have hkey := startsWithAny_tidy f h (c :: s)
  rw [tidy_cons f hc] at hkey
  rw [endsBefore, endsBefore, f.isNameChar_of, hkey, f.of_beq (k := ')') (by decide),
    f.of_beq (k := ';') (by decide)]

private theorem topLevelFrom_blank {c : Char} (hc : isBlank c = true) (d : Nat)
    (b : Bool) (s : List Char) :
    (topLevelFrom stops d b (c :: s)).1 = c :: (topLevelFrom stops d false s).1 := by
  rw [topLevelFrom, endsBefore_blank hc, depthAfter_blank d hc, isNameChar_of_isBlank hc]
  rfl

private theorem startsBlank_topLevelFrom (stops : List String) (d : Nat) (b : Bool)
    (s : List Char) : startsBlank (topLevelFrom stops d b s).1 = startsBlank s := by
  cases s with
  | nil => rfl
  | cons c s =>
    by_cases hc : isBlank c = true
    · rw [topLevelFrom_blank hc]
      rfl
    · rw [topLevelFrom]
      split
      · simp [startsBlank, hc]
      · rfl

/-- The text up to the end of a clause, in the tidy text. -/
theorem topLevelFrom_tidy (h : ∀ k ∈ stops, IsKeyword k) (d : Nat) (b : Bool) (s : List Char) :
    (topLevelFrom stops d b (tidy f s)).1 = tidy f (topLevelFrom stops d b s).1 := by
  induction s generalizing d b with
  | nil => rfl
  | cons c s ih =>
    have hstarts := startsBlank_topLevelFrom stops d false s
    by_cases hc : isBlank c = true
    · rw [topLevelFrom_blank hc]
      by_cases hs : startsBlank s = true
      · obtain ⟨e, t, rfl, he⟩ := exists_of_startsBlank hs
        have hname : (topLevelFrom stops d b (e :: t)).1 =
            (topLevelFrom stops d false (e :: t)).1 := by
          rw [topLevelFrom_blank he, topLevelFrom_blank he]
        rw [tidy_blank_of_startsBlank f hc hs, ih, hname,
          tidy_blank_of_startsBlank f hc (by rw [hstarts, hs])]
      · have hs' : startsBlank s = false := by simpa using hs
        rw [tidy_blank f hc hs', topLevelFrom_blank rfl, ih,
          tidy_blank f hc (by rw [hstarts, hs'])]
    · have hsolid : isBlank c = false := by simpa using hc
      rw [tidy_cons f hsolid, topLevelFrom, topLevelFrom, endsBefore_tidy f h hsolid,
        depthAfter_of, f.isNameChar_of]
      split
      · rfl
      · rw [tidy_cons f hsolid]
        exact congrArg (f.of c :: ·) (ih _ _)

/-- The text up to the end of a clause, in a tidy text, is that in the text, tidied. -/
theorem topLevel_tidy (h : ∀ k ∈ stops, IsKeyword k) (s : List Char) :
    topLevel stops (tidy f s) = tidy f (topLevel stops s) :=
  topLevelFrom_tidy f h 0 false s

/-! ### Between separators -/

/-- A character that separates nothing belongs to the first part. -/
theorem splitTopLevelFrom_cons {sep c : Char} (d : Nat) (s : List Char)
    (h : (c == sep && d == 0) = false) :
    splitTopLevelFrom sep d (c :: s) = consPart c (splitTopLevelFrom sep (depthAfter d c) s) := by
  rw [splitTopLevelFrom, h, depthAfter]
  split
  · rfl
  · split
    · rfl
    · rfl

/-- A separator outside of parentheses ends a part. -/
theorem splitTopLevelFrom_separator {sep : Char} (h : sep ≠ '(' ∧ sep ≠ ')') (s : List Char) :
    splitTopLevelFrom sep 0 (sep :: s) = [] :: splitTopLevelFrom sep 0 s := by
  rw [splitTopLevelFrom, beq_eq_false_iff_ne.mpr h.1, beq_eq_false_iff_ne.mpr h.2]
  simp

private theorem exists_splitTopLevelFrom {sep : Char} (hparen : sep ≠ '(' ∧ sep ≠ ')')
    (hsep : isBlank sep = false) (d : Nat) (s : List Char) :
    ∃ part parts, splitTopLevelFrom sep d s = part :: parts ∧
      startsBlank part = startsBlank s := by
  cases s with
  | nil => exact ⟨[], [], rfl, rfl⟩
  | cons c s =>
    by_cases h : c = sep ∧ d = 0
    · obtain ⟨rfl, rfl⟩ := h
      refine ⟨[], splitTopLevelFrom c 0 s, splitTopLevelFrom_separator hparen s, ?_⟩
      simp [startsBlank, hsep]
    · rw [splitTopLevelFrom_cons d s (by simpa using h)]
      cases splitTopLevelFrom sep (depthAfter d c) s with
      | nil => exact ⟨[c], [], rfl, rfl⟩
      | cons part parts => exact ⟨c :: part, parts, rfl, rfl⟩

/-- The parts of a tidy text are the parts of the text, tidied. -/
theorem splitTopLevelFrom_tidy {sep : Char} (hparen : sep ≠ '(' ∧ sep ≠ ')')
    (hsep : isBlank sep = false) (hmark : IsMark sep) (d : Nat) (s : List Char) :
    splitTopLevelFrom sep d (tidy f s) = (splitTopLevelFrom sep d s).map (tidy f) := by
  induction s generalizing d with
  | nil => rfl
  | cons c s ih =>
    by_cases hc : isBlank c = true
    · have hblank : ∀ e, isBlank e = true → (e == sep && d == 0) = false := by
        intro e he
        rw [beq_of_isBlank he hsep, Bool.false_and]
      obtain ⟨part, parts, hparts, hpart⟩ := exists_splitTopLevelFrom hparen hsep d s
      rw [splitTopLevelFrom_cons d s (hblank c hc), depthAfter_blank d hc]
      by_cases hs : startsBlank s = true
      · rw [tidy_blank_of_startsBlank f hc hs, ih, hparts, consPart, List.map_cons, List.map_cons,
          tidy_blank_of_startsBlank f hc (by rw [hpart, hs])]
      · have hs' : startsBlank s = false := by simpa using hs
        rw [tidy_blank f hc hs', splitTopLevelFrom_cons d _ (hblank ' ' rfl),
          depthAfter_blank d rfl, ih, hparts, List.map_cons, consPart, consPart, List.map_cons,
          tidy_blank f hc (by rw [hpart, hs'])]
    · have hsolid : isBlank c = false := by simpa using hc
      rw [tidy_cons f hsolid]
      by_cases h : c = sep ∧ d = 0
      · obtain ⟨rfl, rfl⟩ := h
        rw [f.of_eq_self hmark, splitTopLevelFrom_separator hparen,
          splitTopLevelFrom_separator hparen, ih]
        rfl
      · have h' : (f.of c == sep && d == 0) = false := by
          rw [f.of_beq hmark]
          simpa using h
        rw [splitTopLevelFrom_cons d _ h', splitTopLevelFrom_cons d s (by simpa using h),
          depthAfter_of, ih]
        obtain ⟨part, parts, hparts, -⟩ := exists_splitTopLevelFrom hparen hsep (depthAfter d c) s
        rw [hparts, List.map_cons, consPart, consPart, List.map_cons, tidy_cons f hsolid]

end SqlReview.Query

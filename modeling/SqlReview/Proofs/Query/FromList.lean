import Mathlib.Data.List.Forall2
import SqlReview.Proofs.Query.Scan
import SqlReview.Proofs.Text.Bytes
import SqlReview.Query.FromList

/-!
# Lists of tables of a tidy text

The pass over a tidy text takes the steps that the pass over the text takes, at other offsets. Two
offsets are compared by the text that follows them: the one at which the tidy text goes on is the
tidy text of the one at which the text goes on.
-/

namespace SqlReview.Query

open SqlReview.Text

variable {f : Folding} {s : List Char}

/-! ### Offsets -/

/-- Whether a part of a text begins at an offset, and the tidy part at an offset of the tidy
text. -/
structure Begins (f : Folding) (s a : List Char) (o p : Nat) : Prop where
  suffix : a <:+ s
  offset : byteLength a + o = byteLength s
  tidied : byteLength (tidy f a) + p = byteLength (tidy f s)

/-- The part after a character that is no blank. -/
theorem Begins.tail {c : Char} {t : List Char} {o p : Nat} (h : Begins f s (c :: t) o p)
    (hc : isBlank c = false) :
    Begins f s t (o + c.utf8Size) (p + (f.of c).utf8Size) where
  suffix := (List.suffix_cons c t).trans h.suffix
  offset := by
    have ho := h.offset
    rw [byteLength_cons] at ho
    omega
  tidied := by
    have hp := h.tidied
    rw [tidy_cons f hc, byteLength_cons] at hp
    omega

/-- Between two offsets of the tidy text stands what stands between the two of the text, when no
blank follows. -/
theorem slice?_tidy {a b : List Char} {o o' p p' : Nat} (ha : Begins f s a o o')
    (hb : Begins f s b p p') (hstop : startsBlank b = false) :
    slice? (tidy f s) o' p' = (slice? s o p).map (tidy f) := by
  rcases List.suffix_or_suffix_of_suffix ha.suffix hb.suffix with h | h
  · by_cases hab : a = b
    · subst hab
      have hnil := slice?_of_suffix (x := []) ha.suffix ha.offset hb.offset
      have hnil' := slice?_of_suffix (x := []) (tidy_suffix f ha.suffix) ha.tidied hb.tidied
      rw [hnil, hnil']
      rfl
    · -- The first offset lies beyond the second one, in both texts.
      obtain ⟨c, b, rfl⟩ : ∃ c t, b = c :: t := by
        cases b with
        | nil => exact absurd (List.eq_nil_of_suffix_nil h) hab
        | cons c b => exact ⟨c, b, rfl⟩
      have hc : isBlank c = false := by simpa [startsBlank] using hstop
      have hsuffix : a <:+ b := (List.suffix_cons_iff.mp h).resolve_left hab
      have hle := byteLength_le_of_suffix hsuffix
      have hle' := byteLength_le_of_suffix (tidy_suffix f hsuffix)
      have ho := ha.offset
      have hp := hb.offset
      have ho' := ha.tidied
      have hp' := hb.tidied
      have hpos := c.utf8Size_pos
      have hpos' := (f.of c).utf8Size_pos
      rw [byteLength_cons] at hp
      rw [tidy_cons f hc, byteLength_cons] at hp'
      rw [slice?_eq_none (by omega), slice?_eq_none (by omega)]
      rfl
  · obtain ⟨x, rfl⟩ := h
    have hx := slice?_of_suffix ha.suffix ha.offset hb.offset
    have htidy := tidy_append f x hstop
    have hsuffix := tidy_suffix f ha.suffix
    have ho' := ha.tidied
    rw [htidy] at hsuffix ho'
    rw [hx, slice?_of_suffix hsuffix ho' hb.tidied]
    rfl

/-! ### Open lists and items -/

/-- Two ranges between corresponding offsets, the second of which no blank follows. -/
def SameRange (f : Folding) (s : List Char) (r r' : Nat × Nat) : Prop :=
  ∃ a b, Begins f s a r.1 r'.1 ∧ Begins f s b r.2 r'.2 ∧ startsBlank b = false

/-- Two lists that are open at corresponding offsets. -/
structure SameList (f : Folding) (s : List Char) (l l' : OpenList) : Prop where
  depth : l.depth = l'.depth
  start : ∃ a, Begins f s a l.start l'.start
  commas : List.Forall₂ (fun o p => ∃ t, Begins f s (',' :: t) o p) l.commas l'.commas

/-- Two states of the pass with corresponding offsets. -/
structure SameScan (f : Folding) (s : List Char) (x y : ListScan) : Prop where
  stack : List.Forall₂ (SameList f s) x.stack y.stack
  depth : x.depth = y.depth
  items : List.Forall₂ (SameRange f s) x.items y.items

private theorem sameRange_itemRanges {a b : List Char} {o o' p p' : Nat} {commas commas' : List Nat}
    (ha : Begins f s a o o')
    (h : List.Forall₂ (fun o p => ∃ t, Begins f s (',' :: t) o p) commas commas')
    (hb : Begins f s b p p') (hstop : startsBlank b = false) :
    List.Forall₂ (SameRange f s) (itemRanges o commas p) (itemRanges o' commas' p') := by
  induction h generalizing a o o' with
  | nil => exact .cons ⟨a, b, ha, hb, hstop⟩ .nil
  | cons hcomma hcommas ih =>
    obtain ⟨t, ht⟩ := hcomma
    have hcommaSize : (f.of ',').utf8Size = 1 := f.utf8Size_of ','
    have htail := ht.tail rfl
    rw [hcommaSize] at htail
    exact .cons ⟨a, ',' :: t, ha, ht, rfl⟩ (ih htail)

private theorem SameList.ranges {l l' : OpenList} (h : SameList f s l l') {b : List Char}
    {p p' : Nat} (hb : Begins f s b p p') (hstop : startsBlank b = false) :
    List.Forall₂ (SameRange f s) (l.ranges p) (l'.ranges p') := by
  obtain ⟨a, ha⟩ := h.start
  have hempty : l.commas.isEmpty = l'.commas.isEmpty := by
    rw [Bool.eq_iff_iff, List.isEmpty_iff_length_eq_zero, List.isEmpty_iff_length_eq_zero,
      h.commas.length_eq]
  unfold OpenList.ranges
  rw [hempty]
  split
  · exact .nil
  · exact sameRange_itemRanges ha (List.rel_reverse h.commas) hb hstop

/-! ### Steps of the pass -/

variable {x y : ListScan}

private theorem SameScan.isListening (h : SameScan f s x y) : x.isListening = y.isListening := by
  obtain ⟨stack, depth, items⟩ := x
  obtain ⟨stack', depth', items'⟩ := y
  obtain rfl : depth = depth' := h.depth
  have hstack := h.stack
  cases hstack with
  | nil => rfl
  | cons hl _ => exact congrArg (· == depth) hl.depth

private theorem SameScan.close (h : SameScan f s x y) {b : List Char} {p p' : Nat}
    (hb : Begins f s b p p') (hstop : startsBlank b = false) :
    SameScan f s (x.close p) (y.close p') := by
  obtain ⟨stack, depth, items⟩ := x
  obtain ⟨stack', depth', items'⟩ := y
  obtain rfl : depth = depth' := h.depth
  have hstack := h.stack
  cases hstack with
  | nil => exact h
  | cons hl hrest =>
    simp only [ListScan.close]
    rw [hl.depth]
    split
    · exact ⟨hrest, rfl, List.rel_append h.items (hl.ranges hb hstop)⟩
    · exact h

private theorem SameScan.addComma (h : SameScan f s x y) {t : List Char} {p p' : Nat}
    (ht : Begins f s (',' :: t) p p') : SameScan f s (x.addComma p) (y.addComma p') := by
  obtain ⟨stack, depth, items⟩ := x
  obtain ⟨stack', depth', items'⟩ := y
  obtain rfl : depth = depth' := h.depth
  have hstack := h.stack
  cases hstack with
  | nil => exact h
  | cons hl hrest =>
    simp only [ListScan.addComma]
    rw [hl.depth]
    split
    · exact ⟨.cons ⟨rfl, hl.start, .cons ⟨t, ht⟩ hl.commas⟩ hrest, rfl, h.items⟩
    · exact h

/-- What follows some letters is a part of the text, at an offset that the letters tell. -/
theorem suffix_dropLetters? {ks t rest : List Char} (h : dropLetters? ks t = some rest) :
    rest <:+ t ∧ byteLength t = byteLength ks + byteLength rest := by
  induction ks generalizing t with
  | nil =>
    obtain rfl := Option.some.inj h
    exact ⟨List.suffix_refl _, (Nat.zero_add _).symm⟩
  | cons k ks ih =>
    cases t with
    | nil => exact absurd h (by simp [dropLetters?])
    | cons c t =>
      rw [dropLetters?] at h
      split at h
      · next hk =>
        have hsize : k.utf8Size = c.utf8Size := eq_of_sameLetter (by decide) hk
        obtain ⟨hsuffix, hlength⟩ := ih h
        refine ⟨hsuffix.trans (List.suffix_cons ..), ?_⟩
        rw [byteLength_cons, byteLength_cons, hlength, hsize]
        omega
      · exact absurd h (by simp)

/-- What follows a keyword is a part of the text, at an offset that the keyword tells. -/
theorem suffix_afterKeyword? {keyword : String} {t rest : List Char}
    (h : afterKeyword? keyword t = some rest) :
    rest <:+ t ∧ byteLength t = byteLength keyword.toList + byteLength rest :=
  suffix_dropLetters? (Option.filter_eq_some_iff.mp h).1

private theorem SameScan.openList (h : SameScan f s x y) {t rest : List Char} {o o' : Nat}
    (ht : Begins f s t o o') (hkey : afterKeyword? "FROM" t = some rest) :
    SameScan f s (x.openList (o + 4) rest) (y.openList (o' + 4) (tidy f rest)) := by
  have hkey' : afterKeyword? "FROM" (tidy f t) = some (tidy f rest) := by
    rw [afterKeyword?_tidy f isKeyword_from, hkey, Option.map_some]
  obtain ⟨hsuffix, hlength⟩ := suffix_afterKeyword? hkey
  obtain ⟨-, hlength'⟩ := suffix_afterKeyword? hkey'
  have hfour : byteLength "FROM".toList = 4 := rfl
  unfold ListScan.openList
  rw [takeWhile_isBlank_tidy]
  by_cases hs : startsBlank rest = true
  · obtain ⟨c, r, rfl, hc⟩ := exists_of_startsBlank hs
    have hsplit : byteLength (c :: r) =
        byteLength ((c :: r).takeWhile isBlank) + byteLength (trimStart (c :: r)) := by
      rw [trimStart, ← byteLength_append, List.takeWhile_append_dropWhile]
    have htrim : trimStart (c :: r) = trimStart r := List.dropWhile_cons_of_pos hc
    have htidy : byteLength (tidy f (c :: r)) = 1 + byteLength (tidy f (trimStart r)) := by
      rw [tidy_blank_cons f hc]
      rfl
    have hgap : byteLength ((c :: r).takeWhile isBlank) ≠ 0 := by
      rw [ne_eq, byteLength_eq_zero_iff, List.takeWhile_cons_of_pos hc]
      exact List.cons_ne_nil c _
    have hspace : byteLength [' '] = 1 := rfl
    have ho := ht.offset
    have ho' := ht.tidied
    have hstart : Begins f s (trimStart r)
        (o + 4 + byteLength ((c :: r).takeWhile isBlank)) (o' + 4 + byteLength [' ']) := by
      refine ⟨?_, ?_, ?_⟩
      · rw [← htrim]
        exact ((List.dropWhile_suffix isBlank).trans hsuffix).trans ht.suffix
      · rw [← htrim]
        omega
      · omega
    rw [if_pos hs, if_neg hgap, if_neg (by rw [hspace]; decide)]
    exact ⟨.cons ⟨h.depth, ⟨_, hstart⟩, .nil⟩ h.stack, h.depth, h.items⟩
  · rw [if_neg hs, takeWhile_isBlank_of_startsBlank (by simpa using hs)]
    exact h

/-- A blank is passed over. -/
theorem step_blank (x : ListScan) {c : Char} (hc : isBlank c = true) (o : Nat) (b : Bool)
    (t : List Char) : x.step o b c t = x := by
  rw [ListScan.step, beq_of_isBlank hc (by decide), beq_of_isBlank hc (by decide),
    beq_of_isBlank hc (by decide), beq_of_isBlank hc (by decide), isNameChar_of_isBlank hc]
  simp

/-- The pass takes corresponding steps. -/
theorem SameScan.step (h : SameScan f s x y) {c : Char} {t : List Char} {o o' : Nat}
    (ht : Begins f s (c :: t) o o') (hc : isBlank c = false) (b : Bool) :
    SameScan f s (x.step o b c t) (y.step o' b (f.of c) (tidy f t)) := by
  have hstop : startsBlank (c :: t) = false := by simpa [startsBlank] using hc
  have hclose := h.close ht hstop
  have hfrom := afterKeyword?_tidy f isKeyword_from (c :: t)
  have hkeywords : ∀ k ∈ tableKeywords, IsKeyword k := by decide
  have hkey := startsWithAny_tidy f hkeywords (c :: t)
  rw [tidy_cons f hc] at hfrom hkey
  rw [ListScan.step, ListScan.step, f.of_beq (k := '(') (by decide),
    f.of_beq (k := ')') (by decide), f.of_beq (k := ';') (by decide),
    f.of_beq (k := ',') (by decide), f.isNameChar_of, hfrom, hkey, h.isListening, h.depth]
  split
  · exact ⟨h.stack, rfl, h.items⟩
  · split
    · exact ⟨hclose.stack, congrArg (· - 1) hclose.depth, hclose.items⟩
    · split
      · exact hclose
      · split
        · next hcomma =>
          obtain rfl : c = ',' := by simpa using hcomma
          exact h.addComma ht
        · split
          · cases hrest : afterKeyword? "FROM" (c :: t) with
            | none =>
              simp only [Option.map_none]
              split
              · exact hclose
              · exact h
            | some rest => exact hclose.openList ht hrest
          · exact h

private theorem run_startsBlank (x : ListScan) {a : List Char} (ha : startsBlank a = true) (o : Nat)
    (b b' : Bool) : x.run o b a = x.run o b' a := by
  obtain ⟨c, t, rfl, hc⟩ := exists_of_startsBlank ha
  rw [ListScan.run, ListScan.run, step_blank x hc, step_blank x hc]

/-- The passes over the text and over the tidy text end in corresponding states. -/
theorem SameScan.run {a : List Char} {o o' : Nat} (ha : Begins f s a o o') (b : Bool)
    (h : SameScan f s x y) : SameScan f s (x.run o b a) (y.run o' b (tidy f a)) := by
  induction a generalizing x y o o' b with
  | nil => exact h
  | cons c t ih =>
    by_cases hc : isBlank c = true
    · have ho := ha.offset
      have ho' := ha.tidied
      rw [byteLength_cons] at ho
      have hsuffix : t <:+ s := (List.suffix_cons c t).trans ha.suffix
      rw [ListScan.run, step_blank x hc, isNameChar_of_isBlank hc]
      by_cases ht : startsBlank t = true
      · rw [tidy_blank_of_startsBlank f hc ht] at ho' ⊢
        rw [run_startsBlank y (by rw [startsBlank_tidy, ht]) o' b false]
        exact ih ⟨hsuffix, by omega, ho'⟩ false h
      · have hspace : ' '.utf8Size = 1 := rfl
        rw [tidy_blank f hc (by simpa using ht)] at ho' ⊢
        rw [byteLength_cons, hspace] at ho'
        rw [ListScan.run, step_blank y rfl, hspace]
        exact ih ⟨hsuffix, by omega, by omega⟩ false h
    · have hsolid : isBlank c = false := by simpa using hc
      rw [tidy_cons f hsolid, ListScan.run, ListScan.run, f.isNameChar_of]
      exact ih (ha.tail hsolid) _ (h.step ha hsolid b)

/-! ### The items -/

private theorem sameRange_fromListRanges (f : Folding) (s : List Char) :
    List.Forall₂ (SameRange f s) (fromListRanges s) (fromListRanges (tidy f s)) := by
  have hstart : Begins f s s 0 0 := ⟨List.suffix_refl s, rfl, rfl⟩
  have hstop : Begins f s [] (byteLength s) (byteLength (tidy f s)) :=
    ⟨List.nil_suffix, Nat.zero_add _, Nat.zero_add _⟩
  have hrun : SameScan f s (ListScan.run {} 0 false s) (ListScan.run {} 0 false (tidy f s)) :=
    SameScan.run hstart false ⟨.nil, rfl, .nil⟩
  unfold fromListRanges
  apply List.rel_append hrun.items
  exact List.rel_flatMap hrun.stack fun l l' hl => hl.ranges hstop rfl

/-- The items of the lists of a tidy text are the items of the lists, tidied. -/
theorem fromListItems_tidy (f : Folding) (s : List Char) :
    fromListItems (tidy f s) = (fromListItems s).map (tidy f) := by
  have hranges := sameRange_fromListRanges f s
  unfold fromListItems
  generalize fromListRanges s = ranges at hranges
  generalize fromListRanges (tidy f s) = ranges' at hranges
  induction hranges with
  | nil => rfl
  | @cons r r' _ _ hr _ ih =>
    obtain ⟨o, p⟩ := r
    obtain ⟨o', p'⟩ := r'
    obtain ⟨a, b, ha, hb, hstop⟩ := hr
    have hslice := slice?_tidy ha hb hstop
    rw [List.filterMap_cons, List.filterMap_cons, ih]
    simp only at hslice ⊢
    rw [hslice]
    cases slice? s o p <;> rfl

end SqlReview.Query

import SqlReview.Proofs.Text.Letter
import SqlReview.Text.Bytes

/-!
# Foldings and solid classes

A folding changes nothing but the case of ASCII letters: it leaves letters as they stand, or puts
them in lower case. A class of characters that no folding changes and that holds no blank is solid;
scans and searches ask for solid characters and for blanks, and for nothing in between.
-/

namespace SqlReview.Text

open SqlReview.Lexical

/-! ### Foldings -/

/-- A change of characters that leaves all but the case of ASCII letters alone. -/
structure Folding where
  of : Char → Char
  same : ∀ c, sameLetter (of c) c = true

/-- Letters as they stand. -/
def Folding.none : Folding where
  of := id
  same c := by simp [sameLetter]

/-- The small letter of a small letter is itself. -/
theorem toLower_toLower (c : Char) : c.toLower.toLower = c.toLower := by
  by_cases h : c.toLower = c
  · rw [h, h]
  · have hall : IgnoresCase Char.toLower := by decide
    exact hall c (mem_capitals_of_toLower_ne h)

/-- Letters in lower case. -/
def Folding.lower : Folding where
  of := Char.toLower
  same c := by rw [sameLetter, toLower_toLower, beq_self_eq_true]

/-- Letters in upper case. -/
def Folding.upper : Folding where
  of := Char.toUpper
  same := sameLetter_toUpper

/-- What the case of a letter does not change no folding changes. -/
theorem Folding.eq_of {α : Type} (f : Folding) {g : Char → α} (hg : IgnoresCase g) (c : Char) :
    g (f.of c) = g c :=
  eq_of_sameLetter hg (f.same c)

/-- Folding makes no blank and takes none away. -/
@[simp] theorem Folding.isBlank_of (f : Folding) (c : Char) : isBlank (f.of c) = isBlank c :=
  isBlank_eq_of_sameLetter (f.same c)

/-- Folding does not change whether a character belongs to a name. -/
@[simp] theorem Folding.isNameChar_of (f : Folding) (c : Char) :
    isNameChar (f.of c) = isNameChar c :=
  isNameChar_eq_of_sameLetter (f.same c)

/-- Folding does not change the number of bytes of a character. -/
@[simp] theorem Folding.utf8Size_of (f : Folding) (c : Char) : (f.of c).utf8Size = c.utf8Size :=
  f.eq_of (by decide) c

/-- Folding makes no other character a letter or a mark. -/
@[simp] theorem Folding.sameLetter_of (f : Folding) (k c : Char) :
    sameLetter k (f.of c) = sameLetter k c := by
  have hc : (f.of c).toLower = c.toLower := by simpa [sameLetter] using f.same c
  rw [sameLetter, sameLetter, hc]

/-- Whether a character is no letter. -/
def IsMark (k : Char) : Prop :=
  IgnoresCase (· == k)

/-- Whether a character is a mark is told from the character. -/
instance : DecidablePred IsMark := fun k =>
  inferInstanceAs (Decidable (IgnoresCase (· == k)))

/-- Folding keeps marks and other characters apart. -/
theorem Folding.of_beq (f : Folding) {k : Char} (hk : IsMark k) (c : Char) :
    (f.of c == k) = (c == k) :=
  f.eq_of (g := (· == k)) hk c

/-- A mark stays as it is. -/
theorem Folding.of_eq_self (f : Folding) {k : Char} (hk : IsMark k) : f.of k = k := by
  have h := f.of_beq hk k
  rw [beq_self_eq_true, beq_iff_eq] at h
  exact h

/-- Only a mark becomes a mark. -/
theorem Folding.of_eq_iff (f : Folding) {k : Char} (hk : IsMark k) (c : Char) :
    f.of c = k ↔ c = k := by
  have h := f.of_beq hk c
  rwa [Bool.eq_iff_iff, beq_iff_eq, beq_iff_eq] at h

/-- Folding makes no quotation mark and takes none away. -/
@[simp] theorem Folding.isQuote_of (f : Folding) (c : Char) : isQuote (f.of c) = isQuote c :=
  isQuote_eq_of_sameLetter (f.same c)

/-- A quotation mark is no letter. -/
theorem isMark_of_isQuote {m : Char} (h : isQuote m = true) : IsMark m := by
  simp only [isQuote, Bool.or_eq_true, beq_iff_eq] at h
  rcases h with (rfl | rfl) | rfl <;> decide

/-! ### Blanks -/

/-- The blanks one by one. -/
def blanks : List Char :=
  [9, 10, 11, 12, 13, 0x20, 0x85, 0xA0, 0x1680, 0x2000, 0x2001, 0x2002, 0x2003, 0x2004, 0x2005,
    0x2006, 0x2007, 0x2008, 0x2009, 0x200A, 0x2028, 0x2029, 0x202F, 0x205F, 0x3000].map Char.ofNat

/-- There are no other blanks. -/
theorem mem_blanks {c : Char} (h : isBlank c = true) : c ∈ blanks := by
  have hn : c.toNat ∈ [9, 10, 11, 12, 13, 0x20, 0x85, 0xA0, 0x1680, 0x2000, 0x2001, 0x2002, 0x2003,
      0x2004, 0x2005, 0x2006, 0x2007, 0x2008, 0x2009, 0x200A, 0x2028, 0x2029, 0x202F, 0x205F,
      0x3000] := by
    simp only [isBlank, Bool.or_eq_true, Bool.and_eq_true, decide_eq_true_eq] at h
    simp only [List.mem_cons, List.not_mem_nil, or_false]
    rcases h with (((((((((h | h) | h) | h) | h) | h) | h) | h) | h) | h) | h
    all_goals omega
  rw [← Char.ofNat_toNat c]
  exact List.mem_map_of_mem hn

/-- Whether a class of characters holds no blank. -/
def HoldsNoBlank (p : Char → Bool) : Prop :=
  ∀ c ∈ blanks, p c = false

/-- Whether a class holds a blank is told blank by blank. -/
instance : DecidablePred HoldsNoBlank := fun p =>
  List.decidableBAll (fun c => p c = false) blanks

/-- What holds no blank of the list holds none. -/
theorem HoldsNoBlank.eq_false {p : Char → Bool} (h : HoldsNoBlank p) {c : Char}
    (hc : isBlank c = true) : p c = false :=
  h c (mem_blanks hc)

/-- Whether code points in ascending order lie in none of the ranges. Both lists are gone through
together. -/
def CodeRanges.avoids : CodeRanges → List Nat → Bool
  | [], _ => true
  | (first, last) :: rest, codes =>
    let above := codes.dropWhile (· < first)
    above.head?.all (last < ·) && CodeRanges.avoids rest above

/-- What is avoided is not covered. -/
theorem CodeRanges.covers_eq_false_of_avoids {ranges : CodeRanges} {codes : List Nat}
    (hsorted : codes.Pairwise (· ≤ ·)) (h : ranges.avoids codes = true) {n : Nat}
    (hn : n ∈ codes) : ranges.covers n = false := by
  induction ranges generalizing codes with
  | nil => rfl
  | cons range rest ih =>
    obtain ⟨first, last⟩ := range
    by_cases hfirst : n < first
    · exact covers_of_lt rest hfirst
    · have hsplit := List.takeWhile_append_dropWhile (p := (· < first)) (l := codes)
      have habove : n ∈ codes.dropWhile (· < first) := by
        rw [← hsplit] at hn
        rcases List.mem_append.mp hn with hbelow | habove
        · exact absurd (List.all_eq_true.mp List.all_takeWhile n hbelow) (by simpa using hfirst)
        · exact habove
      have hsorted' : (codes.dropWhile (· < first)).Pairwise (· ≤ ·) :=
        hsorted.sublist (List.dropWhile_sublist _)
      obtain ⟨hhead, hrest⟩ := Bool.and_eq_true_iff.mp h
      have hlast : last < n := by
        cases hcodes : codes.dropWhile (· < first) with
        | nil => exact absurd habove (hcodes ▸ List.not_mem_nil)
        | cons m above =>
          rw [hcodes] at habove hsorted' hhead
          have hm : last < m := by simpa using hhead
          rcases List.mem_cons.mp habove with rfl | habove
          · exact hm
          · exact Nat.lt_of_lt_of_le hm ((List.pairwise_cons.mp hsorted').1 n habove)
      have hcovers := ih hsorted' hrest habove
      have hbeyond : ¬ n ≤ last := Nat.not_le.mpr hlast
      show (if n < first then false else decide (n ≤ last) || covers rest n) = false
      rw [if_neg hfirst, hcovers, decide_eq_false hbeyond, Bool.or_false]

/-- A class of ASCII characters and of ranges beyond ASCII holds no blank if neither does. -/
theorem holdsNoBlank_of_avoids {ascii : Char → Bool} {ranges : CodeRanges}
    (hascii : HoldsNoBlank fun c => decide (c.toNat < 128) && ascii c)
    (h : ranges.avoids (blanks.map (·.toNat)) = true) :
    HoldsNoBlank fun c => if c.toNat < 128 then ascii c else ranges.covers c.toNat := by
  intro c hc
  have hsorted : (blanks.map (·.toNat)).Pairwise (· ≤ ·) := by decide
  have hcovers := ranges.covers_eq_false_of_avoids hsorted h (List.mem_map_of_mem hc)
  by_cases hsmall : c.toNat < 128
  · have hclass : (decide (c.toNat < 128) && ascii c) = false := hascii c hc
    rw [decide_eq_true hsmall, Bool.true_and] at hclass
    exact (if_pos hsmall).trans hclass
  · exact (if_neg hsmall).trans hcovers

private theorem holdsNoBlank_isAlphabetic : HoldsNoBlank isAlphabetic :=
  holdsNoBlank_of_avoids (by decide) (by decide +kernel)

private theorem holdsNoBlank_isDigit : HoldsNoBlank isDigit :=
  holdsNoBlank_of_avoids (by decide) (by decide +kernel)

private theorem holdsNoBlank_isOtherNumber : HoldsNoBlank isOtherNumber :=
  holdsNoBlank_of_avoids (by decide) (by decide +kernel)

private theorem holdsNoBlank_isMark : HoldsNoBlank isMark :=
  holdsNoBlank_of_avoids (by decide) (by decide +kernel)

private theorem holdsNoBlank_isNameChar : HoldsNoBlank isNameChar := by
  intro c hc
  have hunderscore : HoldsNoBlank (· == '_') := by decide
  have hmark : (c == '_') = false := hunderscore c hc
  rw [isNameChar, holdsNoBlank_isAlphabetic c hc, holdsNoBlank_isDigit c hc,
    holdsNoBlank_isOtherNumber c hc, hmark]
  rfl

private theorem holdsNoBlank_isWordChar : HoldsNoBlank isWordChar := by
  intro c hc
  have hconnector : HoldsNoBlank isConnector := by decide
  have hjoiner : HoldsNoBlank isJoiner := by decide
  rw [isWordChar, holdsNoBlank_isAlphabetic c hc, holdsNoBlank_isMark c hc,
    holdsNoBlank_isDigit c hc, hconnector c hc, hjoiner c hc]
  rfl

/-- A blank is none of the other characters. -/
theorem beq_of_isBlank {c k : Char} (hc : isBlank c = true) (hk : isBlank k = false) :
    (c == k) = false := by
  rw [beq_eq_false_iff_ne]
  rintro rfl
  rw [hc] at hk
  exact absurd hk (by decide)

/-- A blank is no letter of a keyword. -/
theorem sameLetter_of_isBlank {k c : Char} (hk : isBlank k = false) (hc : isBlank c = true) :
    sameLetter k c = false := by
  rw [Bool.eq_false_iff]
  intro h
  rw [isBlank_eq_of_sameLetter h, hc] at hk
  exact absurd hk (by decide)

/-- A class of characters that a folding respects and that holds no blank. -/
structure Solid (f : Folding) (cls : Char → Bool) : Prop where
  fold : ∀ c, cls (f.of c) = cls c
  blank : ∀ c, isBlank c = true → cls c = false

/-- A class is solid when it holds both cases of every letter or neither, and no blank. -/
theorem solid_of {f : Folding} {cls : Char → Bool} (hfold : IgnoresCase cls)
    (hblank : HoldsNoBlank cls) : Solid f cls where
  fold := f.eq_of hfold
  blank _ := hblank.eq_false

/-- Where letters are left as they stand, a class without blanks is solid. -/
theorem solid_none {cls : Char → Bool} (hblank : HoldsNoBlank cls) : Solid .none cls where
  fold _ := rfl
  blank _ := hblank.eq_false

/-- A class of one mark is solid. -/
theorem solid_mark {f : Folding} {k : Char} (hk : IsMark k) (hblank : isBlank k = false) :
    Solid f (· == k) where
  fold := f.of_beq hk
  blank _ hc := beq_of_isBlank hc hblank

/-- Two solid classes are solid together. -/
theorem Solid.or {f : Folding} {p q : Char → Bool} (hp : Solid f p) (hq : Solid f q) :
    Solid f fun c => p c || q c where
  fold c := by rw [hp.fold, hq.fold]
  blank c hc := by rw [hp.blank c hc, hq.blank c hc, Bool.or_false]

/-- Name characters are solid. -/
theorem solid_isNameChar (f : Folding) : Solid f isNameChar :=
  solid_of (by decide) holdsNoBlank_isNameChar

/-- Word characters are solid. -/
theorem solid_isWordChar (f : Folding) : Solid f isWordChar :=
  solid_of (by decide) holdsNoBlank_isWordChar

/-- The characters that are no blanks are solid. -/
theorem solid_not_isBlank (f : Folding) : Solid f (!isBlank ·) := solid_of (by decide) (by decide)

/-- Whether a text can be a keyword: it has a character, and none that is blank. -/
def IsKeyword (keyword : String) : Prop :=
  keyword.toList ≠ [] ∧ ∀ c ∈ keyword.toList, isBlank c = false

/-- Whether a text can be a keyword is told from its characters. -/
instance : DecidablePred IsKeyword := fun keyword =>
  @instDecidableAnd _ _ inferInstance
    (List.decidableBAll (fun c => isBlank c = false) keyword.toList)

/-! ### Texts up to letter case -/

/-- Texts that are equal up to the case of letters are equal in upper case. -/
theorem upperAscii_eq_of_sameText {s t : List Char} (h : sameText s t = true) :
    upperAscii s = upperAscii t := by
  have hfold : ∀ s : List Char, upperAscii (lowerAscii s) = upperAscii s := by
    intro s
    rw [upperAscii, upperAscii, lowerAscii, List.map_map]
    apply List.map_congr_left
    intro c _
    exact toUpper_eq_of_sameLetter (Folding.lower.same c)
  rw [← hfold s, sameText_iff.mp h, hfold]

/-- A text in upper case is the same text. -/
theorem sameText_upperAscii (s : List Char) : sameText s (upperAscii s) = true := by
  rw [sameText_iff, lowerAscii, lowerAscii, upperAscii, List.map_map]
  apply List.map_congr_left
  intro c _
  have h : sameLetter c.toUpper c = true := sameLetter_toUpper c
  rw [sameLetter, beq_iff_eq] at h
  exact h.symm

/-- Letters have the same byte length in upper case. -/
theorem byteLength_upperAscii (s : List Char) : byteLength (upperAscii s) = byteLength s := by
  induction s with
  | nil => rfl
  | cons c s ih =>
    have hsize : c.toUpper.utf8Size = c.utf8Size :=
      eq_of_sameLetter (by decide) (sameLetter_toUpper c)
    rw [byteLength_cons, ← hsize, ← ih]
    rfl

/-- Texts that are equal up to the case of letters are blank together. -/
theorem isBlankText_eq_of_sameText {s t : List Char} (h : sameText s t = true) :
    isBlankText s = isBlankText t := by
  have hfold : ∀ s : List Char, isBlankText (lowerAscii s) = isBlankText s := by
    intro s
    rw [isBlankText, isBlankText, lowerAscii, List.all_map]
    congr 1
    funext c
    exact Folding.lower.isBlank_of c
  rw [← hfold s, sameText_iff.mp h, hfold]

end SqlReview.Text

import SqlReview.Lexical.Literal
import SqlReview.Proofs.Text.Letter
import SqlReview.Query.Keyword
import SqlReview.Text.Bytes

/-!
# Reading a text whose literals are blanked

Blanking leaves the text outside of quoted spans alone and keeps the marks, so a reader that asks
for blanks or keywords outside of spans finds the same in both texts. Each fact holds whichever
marks have their contents blanked.
-/

namespace SqlReview.Lexical

open SqlReview.Text SqlReview.Query

variable (filled : Char → Bool)

/-- Outside of quoted spans a text and its blanked form begin with the same character. -/
@[simp] theorem head?_blankFrom (s : List Char) : (blankFrom filled none s).head? = s.head? := by
  cases s <;> rfl

/-- Outside of quoted spans a character stays. -/
theorem blankFrom_cons {c : Char} (s : List Char) (h : isQuote c = false) :
    blankFrom filled none (c :: s) = c :: blankFrom filled none s := by
  rw [blankFrom, if_neg (by simp [h])]

/-- In a quoted span a character stays or is blanked, and its mark ends the span, unless the
character is a backslash that takes another one with it. -/
theorem blankFrom_some_cons {m c : Char} {s : List Char} (h : c = '\\' → s = []) :
    blankFrom filled (some m) (c :: s) =
      if c = m then c :: blankFrom filled none s
      else content (filled m) c ++ blankFrom filled (some m) s := by
  rw [blankFrom]
  rintro d t rfl rfl
  exact absurd (h rfl) (List.cons_ne_nil d t)

/-- A blanked content has the byte length of the content. -/
theorem byteLength_content (b : Bool) (c : Char) : byteLength (content b c) = c.utf8Size := by
  have hfillers : ∀ n, byteLength (List.replicate n filler) = n := by
    intro n
    induction n with
    | zero => rfl
    | succ n ih =>
      have hone : filler.utf8Size = 1 := rfl
      rw [List.replicate_succ, byteLength_cons, ih, hone, Nat.add_comm]
  unfold content
  split
  · exact hfillers c.utf8Size
  · exact Nat.add_zero _

/-- A blanked text has the byte length of the text. -/
theorem byteLength_blankFrom (mark : Option Char) (s : List Char) :
    byteLength (blankFrom filled mark s) = byteLength s := by
  fun_induction blankFrom filled mark s with
  | case1 mark => rfl
  | case2 c s ih => rw [byteLength_cons, byteLength_cons, ih]
  | case3 mark c s ih =>
    rw [byteLength_append, byteLength_append, byteLength_content, byteLength_content, ih,
      byteLength_cons, byteLength_cons, Nat.add_assoc]
  | case4 mark s hc ih => rw [byteLength_cons, byteLength_cons, ih]
  | case5 mark c s hc hm ih => rw [byteLength_append, byteLength_content, ih, byteLength_cons]

/-- Letters without quotation marks are dropped from a blanked text as from the text itself. -/
theorem dropLetters?_blankFrom {ks : List Char} (hk : ks.any isQuote = false) (s : List Char) :
    dropLetters? ks (blankFrom filled none s) =
      (dropLetters? ks s).map (blankFrom filled none) := by
  induction ks generalizing s with
  | nil => rfl
  | cons k ks ih =>
    cases s with
    | nil => rfl
    | cons c s =>
      rw [List.any_cons, Bool.or_eq_false_iff] at hk
      by_cases h : sameLetter k c = true
      · have hc : isQuote c = false := by
          rw [← isQuote_eq_of_sameLetter h]
          exact hk.1
        rw [blankFrom_cons filled s hc, dropLetters?, dropLetters?, if_pos h, if_pos h]
        exact ih hk.2 s
      · rw [blankFrom, dropLetters?, dropLetters?, if_neg h, if_neg h]
        rfl

/-- A keyword stands at the start of a blanked text where it stands at the start of the text. -/
theorem afterKeyword?_blankFrom {keyword : String}
    (hk : keyword.toList.any isQuote = false) (s : List Char) :
    afterKeyword? keyword (blankFrom filled none s) =
      (afterKeyword? keyword s).map (blankFrom filled none) := by
  rw [afterKeyword?, afterKeyword?, dropLetters?_blankFrom filled hk]
  cases dropLetters? keyword.toList s with
  | none => rfl
  | some rest =>
    rw [Option.map_some, Option.filter_some, Option.filter_some, startsInName, startsInName,
      head?_blankFrom]
    split <;> rfl

/-- Blanking makes and unmakes no keyword outside of quoted spans. -/
theorem startsWith_blankFrom {keyword : String} (hk : keyword.toList.any isQuote = false)
    (s : List Char) : startsWith keyword (blankFrom filled none s) = startsWith keyword s := by
  rw [startsWith, startsWith, afterKeyword?_blankFrom filled hk, Option.isSome_map]

/-- A blank is no quotation mark. -/
theorem isQuote_of_isBlank {c : Char} (h : isBlank c = true) : isQuote c = false := by
  cases hq : isQuote c with
  | false => rfl
  | true =>
    simp only [isQuote, Bool.or_eq_true, beq_iff_eq] at hq
    rcases hq with (rfl | rfl) | rfl <;> exact absurd h (by decide)

/-- A quotation mark is no blank. -/
theorem isBlank_of_isQuote {c : Char} (h : isQuote c = true) : isBlank c = false := by
  rw [← Bool.not_eq_true]
  intro hblank
  rw [isQuote_of_isBlank hblank] at h
  exact Bool.noConfusion h

/-- The blanks that a text begins with can be dropped before or after blanking. -/
theorem trimStart_blankFrom (s : List Char) :
    trimStart (blankFrom filled none s) = blankFrom filled none (trimStart s) := by
  induction s with
  | nil => rfl
  | cons c s ih =>
    by_cases h : isBlank c = true
    · rw [blankFrom_cons filled s (isQuote_of_isBlank h), trimStart, trimStart,
        List.dropWhile_cons_of_pos h, List.dropWhile_cons_of_pos h]
      exact ih
    · rw [trimStart, trimStart, List.dropWhile_cons_of_neg h, blankFrom,
        List.dropWhile_cons_of_neg h]

/-- The filler is no quotation mark, and it takes no character with it. -/
theorem filler_ne {mark : Char} (h : isQuote mark = true) : filler ≠ mark ∧ filler ≠ backslash := by
  constructor
  · rintro rfl
    exact absurd h (by decide)
  · decide

end SqlReview.Lexical

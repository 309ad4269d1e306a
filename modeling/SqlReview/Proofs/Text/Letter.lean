import SqlReview.Lexical.Quote
import SqlReview.Text.Ascii
import SqlReview.Text.Blank
import SqlReview.Text.LowerCase
import SqlReview.Text.WordChar

/-!
# Letter case and classes of characters

Every class of characters that a scan asks for holds both cases of an ASCII letter or neither of
them. What differs between the two cases differs at the capitals, which can be gone through.
-/

namespace SqlReview.Text

open SqlReview.Lexical

/-- What is asked of the members of a list is decided along the list, even of characters, all of
which could be gone through as well. -/
instance (priority := 2000) decidableForallMem {α : Type} (p : α → Prop) [DecidablePred p]
    (l : List α) : Decidable (∀ x ∈ l, p x) :=
  List.decidableBAll p l

/-- The capital letters of ASCII. -/
def capitals : List Char := "ABCDEFGHIJKLMNOPQRSTUVWXYZ".toList

private theorem mem_of_toNat {l : List Char} {first : Nat}
    (h : ∀ n : Fin 26, Char.ofNat (first + n.val) ∈ l) {c : Char}
    (h1 : first ≤ c.toNat) (h2 : c.toNat < first + 26) : c ∈ l := by
  have hc := h ⟨c.toNat - first, by omega⟩
  rw [← Char.ofNat_toNat c]
  rwa [show first + (c.toNat - first) = c.toNat by omega] at hc

/-- A character that folding changes is a capital letter. -/
theorem mem_capitals_of_toLower_ne {c : Char} (h : c.toLower ≠ c) : c ∈ capitals := by
  have hc : 65 ≤ c.toNat ∧ c.toNat ≤ 90 := by
    unfold Char.toLower at h
    split at h
    · next hu => exact hu
    · exact absurd rfl h
  exact mem_of_toNat (by decide) hc.1 (by omega)

/-- A letter in upper case is the same letter. -/
theorem sameLetter_toUpper (c : Char) : sameLetter c.toUpper c = true := by
  by_cases h : c.toUpper = c
  · rw [h]
    simp [sameLetter]
  · have hc : 97 ≤ c.toNat ∧ c.toNat ≤ 122 := by
      unfold Char.toUpper at h
      split at h
      · next hu => exact hu
      · exact absurd rfl h
    have hmem : c ∈ "abcdefghijklmnopqrstuvwxyz".toList :=
      mem_of_toNat (by decide) hc.1 (by omega)
    have hall : "abcdefghijklmnopqrstuvwxyz".toList.all (fun d => sameLetter d.toUpper d) := by
      decide
    exact List.all_eq_true.mp hall c hmem

/-- Whether something is the same of a capital and of its small letter. -/
def IgnoresCase {α : Type} (f : Char → α) : Prop :=
  ∀ c ∈ capitals, f c.toLower = f c

/-- Whether the case of letters is ignored is told letter by letter. -/
instance {α : Type} [DecidableEq α] (f : Char → α) : Decidable (IgnoresCase f) :=
  List.decidableBAll (fun c => f c.toLower = f c) capitals

/-- What is the same of a capital and of its small letter is the same of both cases of a letter. -/
theorem eq_of_sameLetter {α : Type} {f : Char → α} (hf : IgnoresCase f) {c d : Char}
    (h : sameLetter c d = true) : f c = f d := by
  have hfold : ∀ e, f e.toLower = f e := by
    intro e
    by_cases he : e.toLower = e
    · rw [he]
    · exact hf e (mem_capitals_of_toLower_ne he)
  have hcd : c.toLower = d.toLower := by simpa [sameLetter] using h
  rw [← hfold c, hcd, hfold d]

/-- Of two cases of a letter both are blanks or neither is. -/
theorem isBlank_eq_of_sameLetter {c d : Char} (h : sameLetter c d = true) :
    isBlank c = isBlank d := eq_of_sameLetter (by decide) h

/-- Of two cases of a letter both are quotation marks or neither is. -/
theorem isQuote_eq_of_sameLetter {c d : Char} (h : sameLetter c d = true) :
    isQuote c = isQuote d := eq_of_sameLetter (by decide) h

/-- Of two cases of a letter both belong to names or neither does. -/
theorem isNameChar_eq_of_sameLetter {c d : Char} (h : sameLetter c d = true) :
    isNameChar c = isNameChar d := eq_of_sameLetter (by decide) h

/-- Both cases of a letter have one lower case. -/
theorem lowerChar_eq_of_sameLetter {c d : Char} (h : sameLetter c d = true) :
    lowerChar c = lowerChar d := eq_of_sameLetter (by decide) h

/-- Both cases of a letter have one upper case. -/
theorem toUpper_eq_of_sameLetter {c d : Char} (h : sameLetter c d = true) :
    c.toUpper = d.toUpper := eq_of_sameLetter (by decide) h

end SqlReview.Text

import SqlReview.Text.Alphabetic
import SqlReview.Text.Mark
import SqlReview.Text.Number
import SqlReview.Text.Recent

/-!
# Characters of names and of words

Two classes that differ beyond ASCII. A *name character* may stand in an identifier: a letter, a
number of any kind or an underscore. A *word character* belongs to a word in the sense of word
boundaries: a letter, a combining mark, a decimal digit, connecting punctuation or a joiner. The
first class is read in Unicode 17, the second in Unicode 16.
-/

namespace SqlReview.Text

/-- Connecting punctuation, general category Pc. -/
def isConnector (c : Char) : Bool :=
  let n := c.toNat
  c == '_' || n == 0x203F || n == 0x2040 || n == 0x2054 || n == 0xFE33 || n == 0xFE34 ||
    (0xFE4D ≤ n && n ≤ 0xFE4F) || n == 0xFF3F

/-- The zero-width joiner and non-joiner. -/
def isJoiner (c : Char) : Bool :=
  c == '\u200C' || c == '\u200D'

/-- A character that may stand in an identifier. -/
def isNameChar (c : Char) : Bool :=
  isAlphabetic c || isDigit c || isOtherNumber c || c == '_'

/-- A character that belongs to a word. -/
def isWordChar (c : Char) : Bool :=
  (isAlphabetic c || isMark c || isDigit c || isConnector c || isJoiner c) && !isRecent c

/-- Whether a text begins with a name character. -/
def startsInName (s : List Char) : Bool :=
  s.head?.any isNameChar

/-- In ASCII the two classes are the same. -/
theorem isWordChar_eq_isNameChar {c : Char} (h : c.toNat < 128) :
    isWordChar c = isNameChar c := by
  have h1 : isConnector c = (c == '_') := by
    simp only [isConnector]
    rw [show (c.toNat == 0x203F) = false by simp; omega,
      show (c.toNat == 0x2040) = false by simp; omega,
      show (c.toNat == 0x2054) = false by simp; omega,
      show (c.toNat == 0xFE33) = false by simp; omega,
      show (c.toNat == 0xFE34) = false by simp; omega,
      show (c.toNat == 0xFF3F) = false by simp; omega,
      show decide (0xFE4D ≤ c.toNat) = false by simp; omega]
    simp
  have h2 : isJoiner c = false := by
    simp only [isJoiner, Bool.or_eq_false_iff, beq_eq_false_iff_ne]
    constructor <;> rintro rfl <;> revert h <;> decide
  simp [isWordChar, isNameChar, isMark, isOtherNumber, isRecent, h, h1, h2]

end SqlReview.Text

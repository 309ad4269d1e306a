/-!
# ASCII letter case

Folding that touches the ASCII letters only. Identifiers of rules and keywords of the language
are compared this way.
-/

namespace SqlReview.Text

/-- A text with its ASCII letters in upper case. -/
def upperAscii (s : List Char) : List Char :=
  s.map Char.toUpper

/-- A text with its ASCII letters in lower case. -/
def lowerAscii (s : List Char) : List Char :=
  s.map Char.toLower

/-- Whether two characters are equal up to the case of an ASCII letter. -/
def sameLetter (a b : Char) : Bool :=
  a.toLower == b.toLower

/-- Whether two texts are equal up to the case of ASCII letters. -/
def sameText (a b : List Char) : Bool :=
  lowerAscii a == lowerAscii b

/-- A text in upper case is as long as the text. -/
@[simp] theorem length_upperAscii (s : List Char) : (upperAscii s).length = s.length := by
  simp [upperAscii]

/-- A text in lower case is as long as the text. -/
@[simp] theorem length_lowerAscii (s : List Char) : (lowerAscii s).length = s.length := by
  simp [lowerAscii]

/-- Texts are the same up to the case of letters when they are once in lower case. -/
theorem sameText_iff {a b : List Char} : sameText a b = true ↔ lowerAscii a = lowerAscii b := by
  simp [sameText]

end SqlReview.Text

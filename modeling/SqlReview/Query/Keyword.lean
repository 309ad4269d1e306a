import SqlReview.Text.Ascii
import SqlReview.Text.WordChar

/-!
# Keywords

Keywords as the scans over a statement read them: ASCII letters in either case, with no name
character after them. Whether a name character stands before a keyword is for the scan to know,
which carries it along as `inName`.
-/

namespace SqlReview.Query

open SqlReview.Text

/-- What follows the given letters, in either case, at the start of a text. -/
def dropLetters? : (letters s : List Char) → Option (List Char)
  | [], s => some s
  | _ :: _, [] => none
  | k :: ks, c :: s => if sameLetter k c then dropLetters? ks s else none

/-- What follows a keyword at the start of a text. -/
def afterKeyword? (keyword : String) (s : List Char) : Option (List Char) :=
  (dropLetters? keyword.toList s).filter fun rest => !startsInName rest

/-- Whether a text begins with a keyword. -/
def startsWith (keyword : String) (s : List Char) : Bool :=
  (afterKeyword? keyword s).isSome

/-- Whether a text begins with one of several keywords. -/
def startsWithAny (keywords : List String) (s : List Char) : Bool :=
  keywords.any (startsWith · s)

/-- What is left behind letters is shorter by their number. -/
theorem dropLetters?_length {ks s rest : List Char} (h : dropLetters? ks s = some rest) :
    s.length = ks.length + rest.length := by
  induction ks generalizing s with
  | nil => simp_all [dropLetters?]
  | cons k ks ih =>
    cases s with
    | nil => simp [dropLetters?] at h
    | cons c s =>
      simp only [dropLetters?] at h
      split at h
      · simp [ih h]; omega
      · simp at h

end SqlReview.Query

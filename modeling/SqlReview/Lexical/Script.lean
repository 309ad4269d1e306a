import SqlReview.Lexical.Comment
import SqlReview.Text.Blank

/-!
# Scripts

A script is a text that holds statements with semicolons between them. A semicolon in a quoted
span or in a comment separates nothing.
-/

namespace SqlReview.Lexical

open SqlReview.Text

/-- Puts characters in front of the first of several pieces. -/
def prepend (cs : List Char) : List (List Char) → List (List Char)
  | [] => [cs]
  | piece :: pieces => (cs ++ piece) :: pieces

/-- The pieces between the semicolons of the code, read from the given region on. Comments stay
in their pieces. Of the two dashes that open a line comment the second is read inside of it. -/
def cutFrom : Region → List Char → List (List Char)
  | _, [] => [[]]
  | .code, ';' :: s => [] :: cutFrom .code s
  | .code, '-' :: '-' :: s => prepend ['-'] (cutFrom .lineComment ('-' :: s))
  | .code, '/' :: '*' :: s => prepend ['/', '*'] (cutFrom .blockComment s)
  | .code, c :: s => prepend [c] (cutFrom (.afterCode c) s)
  | .quoted mark, '\\' :: c :: s => prepend ['\\', c] (cutFrom (.quoted mark) s)
  | .quoted mark, c :: s => prepend [c] (cutFrom (.afterQuoted mark c) s)
  | .lineComment, c :: s =>
    prepend [c] (cutFrom (if c = '\n' then .code else .lineComment) s)
  | .blockComment, '*' :: '/' :: s => prepend ['*', '/'] (cutFrom .code s)
  | .blockComment, c :: s => prepend [c] (cutFrom .blockComment s)

/-- Whether a piece of a script holds anything but blanks and comments. -/
def holdsCode (piece : List Char) : Bool :=
  !isBlankText (removeComments piece)

/-- The statements of a script: its pieces that hold code, trimmed, with their comments. -/
def statements (script : List Char) : List (List Char) :=
  ((cutFrom .code script).filter holdsCode).map trim

/-- The empty text is one empty piece. -/
@[simp] theorem cutFrom_nil (r : Region) : cutFrom r [] = [[]] := by
  cases r <;> rfl

end SqlReview.Lexical

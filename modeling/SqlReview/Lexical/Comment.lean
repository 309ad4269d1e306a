import SqlReview.Lexical.Quote

/-!
# Comments

A text is read in four kinds of region: code, quoted spans, line comments and block comments.
`removeComments` keeps code and quoted spans. A line comment leaves its line feed behind, and a
block comment leaves one space, so that the tokens on its two sides stay apart. A comment that
is never closed runs to the end of the text.
-/

namespace SqlReview.Lexical

/-- Where in a text the reader stands. -/
inductive Region where
  | code
  | quoted (mark : Char)
  | lineComment
  | blockComment
  deriving Repr, DecidableEq

/-- The region after a character of code that opens no comment. -/
def Region.afterCode (c : Char) : Region :=
  if isQuote c then .quoted c else .code

/-- The region after a character of a quoted span that is no backslash. -/
def Region.afterQuoted (mark c : Char) : Region :=
  if c = mark then .code else .quoted mark

/-- A text without its comments, read from the given region on. -/
def removeFrom : Region → List Char → List Char
  | _, [] => []
  | .code, '-' :: '-' :: s => removeFrom .lineComment s
  | .code, '/' :: '*' :: s => removeFrom .blockComment s
  | .code, c :: s => c :: removeFrom (.afterCode c) s
  | .quoted mark, '\\' :: c :: s => '\\' :: c :: removeFrom (.quoted mark) s
  | .quoted mark, c :: s => c :: removeFrom (.afterQuoted mark c) s
  | .lineComment, c :: s =>
    if c = '\n' then c :: removeFrom .code s else removeFrom .lineComment s
  | .blockComment, '*' :: '/' :: s => ' ' :: removeFrom .code s
  | .blockComment, _ :: s => removeFrom .blockComment s

/-- A text without its comments. -/
def removeComments (s : List Char) : List Char :=
  removeFrom .code s

/-- Nothing is left of the empty text. -/
@[simp] theorem removeFrom_nil (r : Region) : removeFrom r [] = [] := by
  cases r <;> rfl

end SqlReview.Lexical

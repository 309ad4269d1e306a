import SqlReview.Lexical.Quote

/-!
# Blanked literals

The contents of quoted spans overwritten with a filler, one for every byte of the content, so
that a blanked text and the text before have the same byte offsets. The marks stay. Which marks
have their contents overwritten is a choice: `blankLiterals` takes the two kinds of string
literal and `blankStrings` only those in apostrophes, which leaves quoted identifiers readable.
-/

namespace SqlReview.Lexical

/-- Written over every byte of a blanked content. -/
def filler : Char := 'x'

/-- A character of a quoted span as it is written: itself, or a filler for each of its bytes. -/
def content (filled : Bool) (c : Char) : List Char :=
  if filled then List.replicate c.utf8Size filler else [c]

/-- A text with the contents of the chosen spans blanked, read from inside the span that `mark`
opened or from outside of any. -/
def blankFrom (filled : Char → Bool) : (mark : Option Char) → List Char → List Char
  | _, [] => []
  | none, c :: s => c :: blankFrom filled (if isQuote c then some c else none) s
  | some mark, '\\' :: c :: s =>
    content (filled mark) '\\' ++ content (filled mark) c ++ blankFrom filled (some mark) s
  | some mark, c :: s =>
    if c = mark then c :: blankFrom filled none s
    else content (filled mark) c ++ blankFrom filled (some mark) s

/-- A text with the contents of single- and double-quoted literals blanked. -/
def blankLiterals (s : List Char) : List Char :=
  blankFrom (fun mark => mark == apostrophe || mark == doubleQuote) none s

/-- A text with the contents of single-quoted literals blanked. -/
def blankStrings (s : List Char) : List Char :=
  blankFrom (· == apostrophe) none s

/-- Nothing is blanked in the empty text. -/
@[simp] theorem blankFrom_nil (filled : Char → Bool) (mark : Option Char) :
    blankFrom filled mark [] = [] := by
  cases mark <;> rfl

end SqlReview.Lexical

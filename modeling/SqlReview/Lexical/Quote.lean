/-!
# Quotation marks

Three marks open a quoted span: the apostrophe, the double quote and the backtick. The mark that
opens a span is the mark that closes it, and inside a span a backslash takes the next character
with it, whatever that character is.
-/

namespace SqlReview.Lexical

/-- The mark around string literals. -/
def apostrophe : Char := '\x27'

/-- The mark around identifiers and, in some dialects, around string literals. -/
def doubleQuote : Char := '\x22'

/-- The mark around identifiers only. -/
def backtick : Char := '\x60'

/-- Takes the next character of a quoted span with it. -/
def backslash : Char := '\x5C'

/-- Whether a character opens a quoted span. -/
def isQuote (c : Char) : Bool :=
  c == apostrophe || c == doubleQuote || c == backtick

/-- A backslash is no quotation mark. -/
@[simp] theorem isQuote_backslash : isQuote backslash = false := rfl

/-- A backslash that takes no character with it is the last one of its text. -/
theorem eq_nil_of_backslash {c : Char} {s : List Char}
    (h : ∀ d t, c = backslash → s = d :: t → False) (hc : c = backslash) : s = [] := by
  cases s with
  | nil => rfl
  | cons d t => exact (h d t hc rfl).elim

end SqlReview.Lexical

import SqlReview.Query.Keyword
import SqlReview.Search.Phrase
import SqlReview.Text.Bytes
import Std.Data.TreeMap

/-!
# Lists of values

The lengths of the lists `IN (...)` of a statement. Where a list ends is read from the blanked
text, in which no literal holds a parenthesis; how long it is, in characters, is read from the
other text at the same byte offsets. Two tables make this one pass each: `closings` leads from
the offset after an opening parenthesis to the offset of the parenthesis that closes it, and
`charsBefore` holds the number of characters before every offset.
-/

namespace SqlReview.Rule

open SqlReview.Text SqlReview.Search

/-- The offsets after opening parentheses with those of their closing ones, from a byte offset
on. `opened` holds the offsets after the parentheses that are open, innermost first. -/
def closingsFrom (offset : Nat) (opened : List Nat) (found : Std.TreeMap Nat Nat) :
    List Char → Std.TreeMap Nat Nat
  | [] => found
  | c :: s =>
    let next := offset + c.utf8Size
    if c == '(' then closingsFrom next (next :: opened) found s
    else if c == ')' then
      match opened with
      | [] => closingsFrom next [] found s
      | start :: opened => closingsFrom next opened (found.insert start offset) s
    else closingsFrom next opened found s

/-- For every closed parenthesis of a text, the offset after it and that of its closing one. -/
def closings (s : List Char) : Std.TreeMap Nat Nat :=
  closingsFrom 0 [] {} s

/-- The number of characters that begin before each byte offset after the first one of a text,
`n` characters standing before the text. -/
def charsBeforeFrom (n : Nat) : List Char → List Nat
  | [] => []
  | c :: s => List.replicate c.utf8Size (n + 1) ++ charsBeforeFrom (n + 1) s

/-- The number of characters that begin before each byte offset, the end of the text included. -/
def charsBefore (s : List Char) : Array Nat :=
  (0 :: charsBeforeFrom 0 s).toArray

/-- The beginning of a list of values. -/
def inList : Phrase :=
  .all [.boundary, .exactly "IN", .blanks, .one (· == '(')]

/-- The byte offsets of the contents of a list of values that an occurrence of `inList` begins. -/
def inListRange (closed : Std.TreeMap Nat Nat) (length : Nat) (found : Occurrence) : Nat × Nat :=
  let start := length - byteLength found.stop.rest
  (start, closed[start]?.getD length)

/-- Whether the contents of a list are a subquery. -/
def isSubquery (contents : List Char) : Bool :=
  "SELECT".toList.isPrefixOf (trimStart contents)

/-- The number of characters between two byte offsets. -/
def charsBetween (counts : Array Nat) (range : Nat × Nat) : Nat :=
  counts[range.2]?.getD 0 - counts[range.1]?.getD 0

/-- The lengths of the lists of values, subqueries apart, of a statement that is given without its
literals and with them. -/
def inListLengths (blanked normalized : List Char) : List Nat :=
  let closed := closings blanked
  let counts := charsBefore normalized
  let ranges := (occurrences inList blanked).map (inListRange closed (byteLength blanked))
  ranges.filterMap fun range => do
    let contents ← slice? blanked range.1 range.2
    if isSubquery contents then none else some (charsBetween counts range)

end SqlReview.Rule

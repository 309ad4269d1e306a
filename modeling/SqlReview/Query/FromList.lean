import SqlReview.Query.Keyword
import SqlReview.Text.Blank
import SqlReview.Text.Bytes

/-!
# Lists of tables

The items of every list `FROM a, b, ...` of two items or more, collected in one pass. A list
belongs to the parenthesis depth of its `FROM` and ends at the parenthesis that closes this depth,
or, at its own depth, at a semicolon, at a keyword or at the next `FROM`. So at most one list is
open at each depth, and the open lists form a stack.
-/

namespace SqlReview.Query

open SqlReview.Text

/-- Keywords that end a list of tables and that never name a table. -/
def tableKeywords : List String := [
  "SELECT", "WHERE", "PREWHERE", "JOIN", "ON", "USING", "GROUP", "ORDER", "LIMIT", "HAVING",
  "UNION", "EXCEPT", "INTERSECT", "INNER", "LEFT", "RIGHT", "FULL", "CROSS", "NATURAL", "OUTER",
  "GLOBAL", "ANY", "ALL", "ASOF", "SEMI", "ANTI", "ASYNC", "ARRAY", "LATERAL", "FINAL",
  "SAMPLE", "SETTINGS", "FORMAT", "WINDOW", "QUALIFY", "OFFSET"]

/-- A list whose end has not been read: the depth of its `FROM`, the byte offset of its first
item, and the byte offsets of its commas, last one first. -/
structure OpenList where
  depth : Nat
  start : Nat
  commas : List Nat := []
  deriving Repr, DecidableEq

/-- The byte ranges between the commas of a list that starts and ends at the given offsets. -/
def itemRanges (start : Nat) : (commas : List Nat) → (stop : Nat) → List (Nat × Nat)
  | [], stop => [(start, stop)]
  | comma :: commas, stop => (start, comma) :: itemRanges (comma + 1) commas stop

/-- The byte ranges of the items of a list that ends at `stop`; none when it has no comma. -/
def OpenList.ranges (list : OpenList) (stop : Nat) : List (Nat × Nat) :=
  if list.commas.isEmpty then [] else itemRanges list.start list.commas.reverse stop

/-- The state of the pass: open lists, innermost first, parentheses open, and the byte ranges of
the items found so far. -/
structure ListScan where
  stack : List OpenList := []
  depth : Nat := 0
  items : List (Nat × Nat) := []
  deriving Repr, DecidableEq

namespace ListScan

/-- Whether a list is open at the depth of the scan. -/
def isListening (scan : ListScan) : Bool :=
  scan.stack.head?.any (·.depth == scan.depth)

/-- Ends the list of this depth, if one is open. -/
def close (scan : ListScan) (stop : Nat) : ListScan :=
  match scan.stack with
  | list :: stack =>
    if list.depth = scan.depth then
      { scan with stack := stack, items := scan.items ++ list.ranges stop }
    else scan
  | [] => scan

/-- Adds a comma to the list of this depth, if one is open. -/
def addComma (scan : ListScan) (offset : Nat) : ListScan :=
  match scan.stack with
  | list :: stack =>
    if list.depth = scan.depth then
      { scan with stack := { list with commas := offset :: list.commas } :: stack }
    else scan
  | [] => scan

/-- Opens a list after a `FROM` that ends at `offset`, given the text that follows it. Without a
blank after the `FROM` there is no list. -/
def openList (scan : ListScan) (offset : Nat) (rest : List Char) : ListScan :=
  let gap := byteLength (rest.takeWhile isBlank)
  if gap = 0 then scan
  else { scan with stack := { depth := scan.depth, start := offset + gap } :: scan.stack }

/-- The state after the character `c` at a byte offset, before the text `s`. -/
def step (scan : ListScan) (offset : Nat) (inName : Bool) (c : Char) (s : List Char) : ListScan :=
  if c == '(' then { scan with depth := scan.depth + 1 }
  else if c == ')' then
    let closed := scan.close offset
    { closed with depth := closed.depth - 1 }
  else if c == ';' then scan.close offset
  else if c == ',' then scan.addComma offset
  else if isNameChar c && !inName then
    match afterKeyword? "FROM" (c :: s) with
    | some rest => (scan.close offset).openList (offset + 4) rest
    | none =>
      if scan.isListening && startsWithAny tableKeywords (c :: s) then scan.close offset else scan
  else scan

/-- The state at the end of a text that begins at a byte offset. -/
def run (scan : ListScan) (offset : Nat) (inName : Bool) : List Char → ListScan
  | [] => scan
  | c :: s => (scan.step offset inName c s).run (offset + c.utf8Size) (isNameChar c) s

end ListScan

/-- The byte ranges of the items of the lists of two tables or more, in the order in which the
lists end. -/
def fromListRanges (s : List Char) : List (Nat × Nat) :=
  let scan := ListScan.run {} 0 false s
  scan.items ++ scan.stack.flatMap (·.ranges (byteLength s))

/-- The items of the lists of two tables or more. -/
def fromListItems (s : List Char) : List (List Char) :=
  (fromListRanges s).filterMap fun (start, stop) => slice? s start stop

end SqlReview.Query

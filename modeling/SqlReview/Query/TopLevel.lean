import SqlReview.Query.Keyword

/-!
# The top level of a text

What stands outside of parentheses. `topLevel` is the part of a text before the end of the
enclosing clause, and `splitTopLevel` cuts a text at separators outside of parentheses. Both
expect literals to be blanked.
-/

namespace SqlReview.Query

open SqlReview.Text

/-- Whether the clause ends before a character: at a parenthesis that closes more than the text
opens, and outside of parentheses at a semicolon and at one of the keywords in `stops`. -/
def endsBefore (stops : List String) (depth : Nat) (inName : Bool) (c : Char) (s : List Char) :
    Bool :=
  depth == 0 &&
    (c == ')' || c == ';' ||
      (isNameChar c && !inName && startsWithAny stops (c :: s)))

/-- The number of open parentheses after a character. A closing one too many counts for nothing. -/
def depthAfter (depth : Nat) (c : Char) : Nat :=
  if c == '(' then depth + 1 else if c == ')' then depth - 1 else depth

/-- The text up to the end of the clause, and the rest, with `depth` parentheses open and
`inName` saying whether a name character stands before. -/
def topLevelFrom (stops : List String) (depth : Nat) (inName : Bool) :
    List Char → List Char × List Char
  | [] => ([], [])
  | c :: s =>
    if endsBefore stops depth inName c s then ([], c :: s)
    else
      let (inside, rest) := topLevelFrom stops (depthAfter depth c) (isNameChar c) s
      (c :: inside, rest)

/-- The text up to the end of the clause it begins in. -/
def topLevel (stops : List String) (s : List Char) : List Char :=
  (topLevelFrom stops 0 false s).1

/-- A character before the first of several parts. -/
def consPart (c : Char) : List (List Char) → List (List Char)
  | [] => [[c]]
  | part :: parts => (c :: part) :: parts

/-- The parts of a text between the separators outside of parentheses, with `depth` parentheses
open. -/
def splitTopLevelFrom (separator : Char) (depth : Nat) : List Char → List (List Char)
  | [] => [[]]
  | c :: s =>
    if c == '(' then consPart c (splitTopLevelFrom separator (depth + 1) s)
    else if c == ')' then consPart c (splitTopLevelFrom separator (depth - 1) s)
    else if c == separator && depth == 0 then [] :: splitTopLevelFrom separator depth s
    else consPart c (splitTopLevelFrom separator depth s)

/-- The parts of a text between the separators outside of parentheses. -/
def splitTopLevel (separator : Char) (s : List Char) : List (List Char) :=
  splitTopLevelFrom separator 0 s

/-- The two parts make up the text. -/
theorem topLevelFrom_append (stops : List String) (depth : Nat) (inName : Bool) (s : List Char) :
    (topLevelFrom stops depth inName s).1 ++ (topLevelFrom stops depth inName s).2 = s := by
  induction s generalizing depth inName with
  | nil => rfl
  | cons c s ih =>
    simp only [topLevelFrom]
    split
    · rfl
    · simp [ih]

end SqlReview.Query

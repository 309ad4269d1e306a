import SqlReview.Query.FromList
import SqlReview.Query.Prologue
import SqlReview.Search.Phrase

/-!
# Tables

The tables that a statement names: after a `FROM`, after a `JOIN`, and as an item of a list of
tables. A name before a parenthesis is a table function and no table, and a name that a prologue
binds is no table either.
-/

namespace SqlReview.Query

open SqlReview.Text SqlReview.Lexical SqlReview.Search

/-- A character of a table name as a search reads it, quotation marks included. -/
def isTableChar (c : Char) : Bool :=
  isWordChar c || c == '.' || c == '$' || c == backtick || c == doubleQuote

/-- A keyword and the gap before the table name. -/
def introduction (keyword : String) : Phrase :=
  .all [.boundary, .letters keyword, .gap]

/-- The parenthesis after a table function. -/
def callMark : Phrase :=
  .all [.blanks, .one (· == '(')]

/-- A keyword with the name after it, and the parenthesis that makes the name a function. -/
def introducedName (keyword : String) : Phrase :=
  .all [introduction keyword, .atLeastOne isTableChar, .opt callMark]

/-- The name in an occurrence of `introducedName`, unless it is the name of a function. -/
def tableCandidate? (keyword : String) (found : Occurrence) : Option (List Char) :=
  match (introduction keyword).read found.start with
  | none => none
  | some p =>
    let afterName := p.skipWhile isTableChar
    if (callMark.read afterName).isSome then none else some (p.rest.takeWhile isTableChar)

/-- The name of a table in lower case and without quotation marks. A text that holds a
parenthesis, an empty name, one that begins with a period and a keyword name no table. -/
def tableName? (raw : List Char) : Option (List Char) :=
  if raw.contains '(' then none
  else
    let name := raw.filter fun c => c != backtick && c != doubleQuote
    if name.isEmpty || name.head? == some '.' || tableKeywords.any (sameText name ·.toList) then
      none
    else some (lower name)

/-- The candidates for tables: those after each `FROM`, then those after each `JOIN`, then those
in lists. -/
def tableCandidates (s : List Char) : List (List Char) :=
  (occurrences (introducedName "FROM") s).filterMap (tableCandidate? "FROM") ++
    (occurrences (introducedName "JOIN") s).filterMap (tableCandidate? "JOIN") ++
    (fromListItems s).filterMap firstWord?

/-- The tables that a text names, each once, apart from the bound names. Comments have to be
removed and string literals blanked. -/
def tables (s : List Char) (bound : List (List Char)) : List (List Char) :=
  ((tableCandidates s).filterMap tableName?).foldl
    (fun names name => if bound.contains name then names else insertName names name) []

end SqlReview.Query

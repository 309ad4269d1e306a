import SqlReview.Query.Clause
import SqlReview.Query.Prologue
import SqlReview.Query.SelectList
import SqlReview.Rule.Basic
import SqlReview.Rule.InList

/-!
# Rules on the text

The rules that look at the text of a statement. All of them inform. Keywords are compared as
they stand, because the text of a subject is in upper case.
-/

namespace SqlReview.Rule

open SqlReview.Text SqlReview.Lexical SqlReview.Search SqlReview.Query

/-- `LIKE` or `ILIKE` and the mark that opens its pattern. -/
def likePattern : Phrase :=
  .all [.boundary, .opt (.exactly "I"), .exactly "LIKE", .gap,
    .one fun c => c == apostrophe || c == doubleQuote]

/-- Whether the literal that an occurrence in the blanked text opens begins with a wildcard. -/
def opensWildcard (s : Subject) (found : Occurrence) : Bool :=
  let offset := byteLength s.blanked - byteLength found.stop.rest
  ((dropBytes? offset s.normalized).bind List.head?) == some '%'

/-- A pattern begins with a wildcard. -/
def leadingWildcard : Rule where
  entry :=
    { id := "leading-wildcard", title := "LIKE pattern with leading wildcard", severity := .info }
  check s := findWhen ((occurrences likePattern s.blanked).any (opensWildcard s))
    "A pattern starting with % forces a full scan of the column"
    "Anchor the pattern at the start, or use a token or ngram bloom filter index"

/-- `NOT IN` or `NOT EXISTS`. -/
def negatedTest : Phrase :=
  .all [.boundary, .exactly "NOT", .gap, .any [.exactly "IN", .exactly "EXISTS"], .boundary]

/-- A test for membership is negated. -/
def negatedMembership : Rule where
  entry := { id := "negated-membership", title := "NOT IN / NOT EXISTS", severity := .info }
  check s := findWhen (holds negatedTest s.blanked)
    "Negated membership checks cannot skip data and behave surprisingly with NULLs"
    "Consider LEFT ANTI JOIN"

/-- The number of unions of a text, and the number of those that keep duplicates. -/
def unionCounts (s : List Char) : Nat × Nat :=
  (count (.exactWords ["UNION"]) s, count (.exactWords ["UNION", "ALL"]) s)

/-- A union removes duplicates. -/
def unionWithoutAll : Rule where
  entry := { id := "union-without-all", title := "UNION without ALL", severity := .info }
  check s :=
    let (unions, keeping) := unionCounts s.blanked
    findWhen (unions > keeping)
      "UNION removes duplicates, which needs a hash set over the whole result"
      "Use UNION ALL when the branches cannot overlap"

/-- A capital letter of ASCII or an underscore. -/
def isCapital (c : Char) : Bool :=
  c.isUpper || c == '_'

/-- A character of a function name. -/
def isFunctionChar (c : Char) : Bool :=
  isCapital c || c.isDigit

/-- A function of one column at the left of a comparison. -/
def wrappedColumn : Phrase :=
  .all [.boundary, .one isCapital, .run isFunctionChar, .blanks, .one (· == '('), .blanks,
    .one isCapital, .run (fun c => isFunctionChar c || c == '.'), .blanks, .one (· == ')'),
    .blanks,
    .any [.one fun c => c == '=' || c == '<' || c == '>' || c == '!', .exactWords ["IN"],
      .exactWords ["LIKE"], .exactWords ["BETWEEN"]]]

/-- Words that may stand before an operand in parentheses without being functions. -/
def operatorWords : List String := ["IN", "EXISTS", "AND", "OR", "NOT", "ANY", "ALL"]

/-- The first function that is applied to a column in a condition. -/
def wrappingFunction? (condition : List Char) : Option String :=
  let names := (occurrences wrappedColumn condition).map fun found =>
    String.ofList (found.start.rest.takeWhile isFunctionChar)
  names.find? (!operatorWords.contains ·)

/-- A condition compares a function of a column. -/
def functionOnColumn : Rule where
  entry :=
    { id := "function-on-column", title := "Function applied to filtered column",
      severity := .info }
  check s := do
    let condition ← clauseBody? (.exactWords ["WHERE"]) s.blanked
    let function ← wrappingFunction? condition
    some {
      description :=
        s!"WHERE applies {function}() to a column, so the primary key cannot prune it"
      suggestion := "Compare the raw column against a transformed constant instead" }

/-- A subquery. -/
def scalarSubquery : Phrase :=
  .all [.one (· == '('), .blanks, .exactly "SELECT", .boundary]

/-- A subquery stands in the select list. -/
def correlatedSubquery : Rule where
  entry := { id := "correlated-subquery", title := "Subquery in select list", severity := .info }
  check s := do
    let list ← selectList? (mainQuery s.blanked)
    findWhen (holds scalarSubquery list)
      "A subquery in the select list can run once per output row"
      "Rewrite it as a JOIN or a window function"

/-- A list of values is large from this number of characters on. -/
def largeInListChars : Nat := 500

/-- A list of values is large. -/
def largeInList : Rule where
  entry := { id := "large-in-list", title := "Large IN list", severity := .info }
  check s := do
    let longest ← (inListLengths s.blanked s.normalized).max?
    findWhen (longest ≥ largeInListChars)
      s!"An IN list spans {longest} characters"
      "Load the values into a temporary table or a Set and join against it"

/-- There are more alternatives than three. -/
def manyOrConditions : Rule where
  entry := { id := "many-or-conditions", title := "Many OR conditions", severity := .info }
  check s :=
    let conditions := count (.exactWords ["OR"]) s.blanked
    findWhen (conditions > 3)
      s!"Filter chains {conditions} OR conditions"
      "Replace equality chains with IN, or split the query with UNION ALL"

/-- The parts of a table are merged while it is read. -/
def finalKeyword : Rule where
  entry := { id := "final-keyword", title := "FINAL modifier", severity := .info }
  check s := findWhen (holds (.exactWords ["FINAL"]) s.blanked)
    "FINAL merges data parts while reading and is single-threaded on older servers"
    "Deduplicate with argMax() and GROUP BY, or run OPTIMIZE in the background"

/-- A grouping key is computed. -/
def groupByExpression : Rule where
  entry := { id := "group-by-expression", title := "Expression in GROUP BY", severity := .info }
  check s := do
    let keys ← clauseBody? (.exactWords ["GROUP", "BY"]) s.blanked
    findWhen (keys.contains '(')
      "Grouping keys are computed for every row"
      "Materialize the expression as a column"

end SqlReview.Rule

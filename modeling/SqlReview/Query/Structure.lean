import SqlReview.Lexical.Comment
import SqlReview.Lexical.Literal
import SqlReview.Query.Aggregate
import SqlReview.Query.Clause
import SqlReview.Query.Complexity
import SqlReview.Query.Join
import SqlReview.Query.SelectList
import SqlReview.Query.Subquery
import SqlReview.Query.Table

/-!
# The structure of a statement

All that is found out about one statement. Names are read from the text without comments and
with its strings blanked; everything else is read from the main query, with all its literals
blanked except where the scan follows quoted spans by itself.
-/

namespace SqlReview.Query

open SqlReview.Text SqlReview.Lexical

/-- What is known of a statement. -/
structure Structure where
  /-- The names that the prologue binds. -/
  boundNames : List (List Char) := []
  /-- The tables, bound names apart. -/
  tables : List (List Char) := []
  /-- The main query without comments, trimmed. -/
  mainQuery : List Char := []
  metrics : Metrics := {}
  deriving Repr, DecidableEq

/-- The metrics of a main query without comments, the number of tables being given. -/
def mainMetrics (tableCount : Nat) (query : List Char) : Metrics :=
  let blanked := blankLiterals query
  let flags := clauseFlags blanked
  let star := isSelectStar blanked
  { tableCount
    joinCount := joinCount blanked
    subqueryDepth := subqueryDepth query
    aggregationCount := aggregateCount blanked
    hasDistinct := flags.hasDistinct
    hasGroupBy := flags.hasGroupBy
    hasOrderBy := flags.hasOrderBy
    hasLimit := flags.hasLimit
    hasPrewhere := flags.hasPrewhere
    hasWhere := flags.hasWhere
    isSelectStar := star
    columnCount := if star then 0 else columnCount blanked }

/-- The structure of a statement. -/
def structureOf (s : List Char) : Structure :=
  let plain := removeComments s
  let named := blankStrings plain
  let bound := boundNames named
  let tables := tables named bound
  let main := mainQuery plain
  { boundNames := bound
    tables
    mainQuery := trim main
    metrics := mainMetrics tables.length main }

/-- The metrics of a statement. -/
def metricsOf (s : List Char) : Metrics :=
  (structureOf s).metrics

end SqlReview.Query

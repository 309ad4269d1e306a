import SqlReview.Query.TopLevel
import SqlReview.Search.Phrase

/-!
# Clauses

Which clauses a statement has, and the body of a clause.
-/

namespace SqlReview.Query

open SqlReview.Search

/-- The clauses that are looked for in a statement. -/
structure ClauseFlags where
  hasDistinct : Bool := false
  hasGroupBy : Bool := false
  hasOrderBy : Bool := false
  hasLimit : Bool := false
  hasPrewhere : Bool := false
  hasWhere : Bool := false
  deriving Repr, DecidableEq

/-- The clauses whose keywords a text holds. Its literals have to be blanked. -/
def clauseFlags (s : List Char) : ClauseFlags where
  hasDistinct := holds (.words ["DISTINCT"]) s
  hasGroupBy := holds (.words ["GROUP", "BY"]) s
  hasOrderBy := holds (.words ["ORDER", "BY"]) s
  hasLimit := holds (.words ["LIMIT"]) s
  hasPrewhere := holds (.words ["PREWHERE"]) s
  hasWhere := holds (.words ["WHERE"]) s

/-- The keywords that end the body of a clause. -/
def clauseStops : List String := [
  "WHERE", "GROUP", "ORDER", "LIMIT", "HAVING", "UNION", "EXCEPT", "INTERSECT", "SETTINGS",
  "FORMAT", "WINDOW", "QUALIFY", "OFFSET", "WITH"]

/-- The body of the first clause that a phrase introduces: the text after the phrase, up to the
next keyword outside of parentheses, a semicolon or the end of the enclosing parenthesis. -/
def clauseBody? (introducer : Phrase) (s : List Char) : Option (List Char) :=
  (find? introducer s).map fun found => topLevel clauseStops found.stop.rest

end SqlReview.Query

/-!
# Metrics

The numbers and flags that describe one statement. All but the number of tables are those of the
main query.
-/

namespace SqlReview.Query

/-- What is counted and noted of a statement. -/
structure Metrics where
  tableCount : Nat := 0
  joinCount : Nat := 0
  subqueryDepth : Nat := 0
  aggregationCount : Nat := 0
  hasDistinct : Bool := false
  hasGroupBy : Bool := false
  hasOrderBy : Bool := false
  hasLimit : Bool := false
  hasPrewhere : Bool := false
  hasWhere : Bool := false
  isSelectStar : Bool := false
  /-- 0 when everything is selected and where there is no select list. -/
  columnCount : Nat := 0
  deriving Repr, DecidableEq

end SqlReview.Query

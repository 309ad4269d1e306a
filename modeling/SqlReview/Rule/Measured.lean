import SqlReview.Rule.Basic

/-!
# Rules on metrics

The rules that look at nothing but the metrics of a statement: the critical ones, the warnings,
and one that informs. All thresholds are exclusive.
-/

namespace SqlReview.Rule

/-- All columns are selected. -/
def selectStar : Rule where
  entry := { id := "select-star", title := "SELECT * reads every column", severity := .critical }
  check s := findWhen s.metrics.isSelectStar
    ("Selecting all columns defeats column pruning in columnar storage and ships unused data " ++
      "to the client")
    "List only the columns the caller needs"

/-- The result is sorted and not bounded. -/
def orderWithoutLimit : Rule where
  entry := { id := "order-without-limit", title := "ORDER BY without LIMIT", severity := .critical }
  check s := findWhen (s.metrics.hasOrderBy && !s.metrics.hasLimit)
    "Sorting an unbounded result set keeps every row in memory before the first one is returned"
    "Add LIMIT, or drop ORDER BY if the caller does not depend on order"

/-- There are more joins than two. -/
def largeJoin : Rule where
  entry := { id := "large-join", title := "Many joins", severity := .critical }
  check s :=
    let joins := s.metrics.joinCount
    findWhen (joins > 2)
      s!"Query performs {joins} joins; each one multiplies memory use of the hash table"
      "Denormalize hot lookups, use dictionaries, or pre-aggregate before joining"

/-- Subqueries are nested more than two deep. -/
def deepNesting : Rule where
  entry := { id := "deep-nesting", title := "Deeply nested subqueries", severity := .critical }
  check s :=
    let depth := s.metrics.subqueryDepth
    findWhen (depth > 2)
      s!"Subqueries are nested {depth} levels deep"
      "Flatten the query with CTEs or joins"

/-- There is a filter, and none that is read first. -/
def prewhereOpportunity : Rule where
  entry := { id := "prewhere-opportunity", title := "WHERE without PREWHERE", severity := .warning }
  check s := findWhen (s.metrics.hasWhere && !s.metrics.hasPrewhere)
    "PREWHERE reads the filter columns first and skips granules that cannot match"
    "Move selective conditions on small columns into PREWHERE"

/-- The result is neither bounded nor grouped. -/
def missingLimit : Rule where
  entry := { id := "missing-limit", title := "No LIMIT", severity := .warning }
  check s :=
    findWhen (!s.metrics.hasLimit && !s.metrics.hasGroupBy && s.metrics.aggregationCount == 0)
      "The query may return every row of the table"
      "Add LIMIT to bound the result size"

/-- Rows are told apart by more than five columns. -/
def wideDistinct : Rule where
  entry := { id := "wide-distinct", title := "DISTINCT over many columns", severity := .warning }
  check s :=
    let columns := s.metrics.columnCount
    findWhen (s.metrics.hasDistinct && columns > 5)
      s!"DISTINCT deduplicates on {columns} columns, building a large hash set"
      "Deduplicate on a key with GROUP BY or LIMIT 1 BY instead"

/-- There are more aggregate calls than five. -/
def manyAggregations : Rule where
  entry := { id := "many-aggregations", title := "Many aggregate functions", severity := .warning }
  check s :=
    let calls := s.metrics.aggregationCount
    findWhen (calls > 5)
      s!"Query computes {calls} aggregations per group"
      "Precompute them in a materialized view or an AggregatingMergeTree table"

/-- More than twenty columns are selected. -/
def manyColumns : Rule where
  entry := { id := "many-columns", title := "Many selected columns", severity := .warning }
  check s :=
    let columns := s.metrics.columnCount
    findWhen (columns > 20)
      s!"Query selects {columns} columns"
      "Fetch only the columns that are displayed or processed"

/-- There are several tables and no join. -/
def cartesianProductRisk : Rule where
  entry :=
    { id := "cartesian-product-risk", title := "Possible cartesian product", severity := .warning }
  check s :=
    let tables := s.metrics.tableCount
    findWhen (tables > 1 && s.metrics.joinCount == 0)
      (s!"{tables} tables are referenced without a JOIN; " ++
        "a missing condition yields every row combination")
      "Use explicit JOIN ... ON syntax"

/-- Aggregates and columns are selected side by side without groups. -/
def aggregationWithoutGroupBy : Rule where
  entry :=
    { id := "aggregation-without-group-by", title := "Aggregation without GROUP BY",
      severity := .info }
  check s :=
    let m := s.metrics
    findWhen (m.aggregationCount > 0 && !m.hasGroupBy && m.columnCount > m.aggregationCount)
      "The select list mixes aggregates and plain columns without GROUP BY"
      "Group by the plain columns or wrap them in any()"

end SqlReview.Rule

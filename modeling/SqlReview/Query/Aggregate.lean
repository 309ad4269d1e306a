import SqlReview.Search.Phrase

/-!
# Aggregate calls

Names of aggregate functions before an opening parenthesis.
-/

namespace SqlReview.Query

open SqlReview.Search

/-- The names of aggregate functions. `any` is none of them, because `ANY` also modifies a join. -/
def aggregateFunctions : List String := [
  -- of every dialect
  "count", "sum", "avg", "min", "max", "array_agg", "string_agg", "group_concat", "median",
  "mode", "bit_and", "bit_or", "bool_and", "bool_or", "every",
  -- of column stores
  "countIf", "sumIf", "avgIf", "minIf", "maxIf", "anyLast", "anyHeavy", "argMin", "argMax",
  "sumMap", "minMap", "maxMap", "uniq", "uniqExact", "uniqCombined", "uniqCombined64",
  "uniqHLL12", "uniqTheta", "uniqIf", "quantile", "quantiles", "quantileExact",
  "quantileExactWeighted", "quantileTiming", "quantileTDigest", "quantileDeterministic",
  "quantileBFloat16", "groupArray", "groupArrayInsertAt", "groupArrayMovingSum",
  "groupArrayMovingAvg", "groupArraySample", "groupUniqArray", "groupBitAnd", "groupBitOr",
  "groupBitXor", "groupBitmap", "stddev", "stddevPop", "stddevSamp", "stddev_pop",
  "stddev_samp", "variance", "varPop", "varSamp", "var_pop", "var_samp", "covarPop",
  "covarSamp", "covar_pop", "covar_samp", "corr", "entropy", "topK", "topKWeighted",
  "simpleLinearRegression",
  -- over windows
  "first_value", "last_value", "nth_value"]

/-- A call of a function: its name at the beginning of a word and the parenthesis after it. -/
def callOf (name : String) : Phrase :=
  .all [.letters name, .blanks, .one (· == '(')]

/-- A call of an aggregate function. -/
def aggregateCall : Phrase :=
  .all [.boundary, .any (aggregateFunctions.map callOf)]

/-- The number of calls of aggregate functions in a text whose literals are blanked. -/
def aggregateCount (s : List Char) : Nat :=
  count aggregateCall s

end SqlReview.Query

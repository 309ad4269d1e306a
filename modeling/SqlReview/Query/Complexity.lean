import SqlReview.Query.Metrics

/-!
# Complexity

The score of a statement and the level of a score. Each part of the metrics adds points up to a
cap of its own; the sum, in 32 bits, is held below the greatest score.
-/

namespace SqlReview.Query

/-- How complex a statement is, in three steps. -/
inductive Level where
  | low
  | medium
  | high
  deriving Repr, DecidableEq

/-- The level as reports for people show it. -/
def Level.label : Level → String
  | .low => "Low"
  | .medium => "Medium"
  | .high => "High"

/-- The level as data formats write it. -/
def Level.name : Level → String
  | .low => "low"
  | .medium => "medium"
  | .high => "high"

/-- The level that a data format names. -/
def Level.ofName? (s : String) : Option Level :=
  [Level.low, .medium, .high].find? (·.name == s)

/-- Scores below this are low. -/
def lowThreshold : UInt32 := 30

/-- Scores below this are at most medium. -/
def mediumThreshold : UInt32 := 60

/-- The greatest score. -/
def maxScore : UInt32 := 100

/-- The level of a score. -/
def Level.ofScore (score : UInt32) : Level :=
  if score < lowThreshold then .low else if score < mediumThreshold then .medium else .high

/-- A count in 32 bits; a count that does not fit is the greatest that does. -/
def clampCount (count : Nat) : UInt32 :=
  if count < UInt32.size then count.toUInt32 else 0xFFFFFFFF

/-- A product in 32 bits; a product that does not fit is the greatest number that does. -/
def saturatingMul (a b : UInt32) : UInt32 :=
  if a.toNat * b.toNat < UInt32.size then a * b else 0xFFFFFFFF

/-- The points for a count, at most `cap`. -/
def capped (count : Nat) (points cap : UInt32) : UInt32 :=
  min (saturatingMul (clampCount count) points) cap

/-- The points for a flag. -/
def flagPoints (flag : Bool) (points : UInt32) : UInt32 :=
  if flag then points else 0

/-- The points for the width of the select list. -/
def columnPoints (count : Nat) : UInt32 :=
  if count > 20 then 10 else if count > 10 then 5 else 0

/-- The score of a statement's metrics. -/
def score (m : Metrics) : UInt32 :=
  let sum := capped m.tableCount 5 20 + capped m.joinCount 5 15 + capped m.subqueryDepth 10 20 +
    capped m.aggregationCount 3 10 + flagPoints m.hasDistinct 5 + flagPoints m.hasGroupBy 5 +
    flagPoints m.hasOrderBy 3 + flagPoints m.isSelectStar 10 + columnPoints m.columnCount
  min sum maxScore

/-- The complexity of a statement is a matter of its metrics alone. -/
structure Complexity where
  metrics : Metrics := {}
  deriving Repr, DecidableEq

/-- The score of a statement. -/
def Complexity.score (c : Complexity) : UInt32 :=
  Query.score c.metrics

/-- The level of a statement. -/
def Complexity.level (c : Complexity) : Level :=
  .ofScore c.score

end SqlReview.Query

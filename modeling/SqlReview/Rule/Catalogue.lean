import SqlReview.Rule.Measured
import SqlReview.Rule.Textual
import SqlReview.Settings.Basic

/-!
# The catalogue

All rules in the order in which they are applied, the rules that settings leave enabled, and the
recommendations that rules have for a statement.
-/

namespace SqlReview.Rule

/-- Every rule, in the order of the catalogue. -/
def catalogue : List Rule := [
  selectStar, orderWithoutLimit, largeJoin, deepNesting,
  prewhereOpportunity, missingLimit, wideDistinct, manyAggregations, manyColumns,
  cartesianProductRisk,
  leadingWildcard, negatedMembership, unionWithoutAll, functionOnColumn,
  aggregationWithoutGroupBy, correlatedSubquery, largeInList, manyOrConditions, finalKeyword,
  groupByExpression]

/-- The tier that settings give to a rule; its own tier, if they give none that is known. -/
def effectiveSeverity (settings : Settings) (e : Entry) : Severity :=
  (settings.tiers[e.id]?.bind Severity.ofSetting?).getD e.severity

/-- A rule in the tier that settings give to it. -/
def under (settings : Settings) (r : Rule) : Rule :=
  { r with entry := { r.entry with severity := effectiveSeverity settings r.entry } }

/-- The enabled rules in their effective tiers. The settings are laid over empty ones first, which
folds their ids. -/
def enabled (settings : Settings) : List Rule :=
  let folded := Settings.merge {} settings
  (catalogue.filter fun r => !folded.disables r.entry.id).map (·.under folded)

/-- What is listed of some rules. -/
def entries (rules : List Rule) : List Entry :=
  rules.map (·.entry)

/-- The recommendations of some rules for a statement, in the order of the rules. -/
def fired (rules : List Rule) (subject : Subject) : List Recommendation :=
  rules.filterMap (·.apply subject)

/-- Recommendations in the order of a report: by tier, and within a tier as they stand. -/
def sortByTier (recommendations : List Recommendation) : List Recommendation :=
  recommendations.mergeSort fun a b => a.severity.rank ≤ b.severity.rank

/-- The recommendations of some rules for a statement, in the order of a report. -/
def evaluate (rules : List Rule) (subject : Subject) : List Recommendation :=
  sortByTier (fired rules subject)

end SqlReview.Rule

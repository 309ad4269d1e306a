import SqlReview.Text.Blank
import SqlReview.Text.LowerCase

/-!
# Severities

The three tiers of recommendations, their order and their names.
-/

namespace SqlReview.Rule

open SqlReview.Text

/-- The tier of a recommendation, from the least to the most serious. -/
inductive Severity where
  /-- Worth knowing. -/
  | info
  /-- Likely to hurt on large tables. -/
  | warning
  /-- To be mended before the statement is put to use. -/
  | critical
  deriving Repr, DecidableEq

namespace Severity

/-- The place of a tier in a report: the most serious tier comes first. -/
def rank : Severity → Nat
  | .critical => 0
  | .warning => 1
  | .info => 2

/-- The place of a tier in the order of its declaration: the most serious tier comes last. -/
def weight : Severity → Nat
  | .info => 0
  | .warning => 1
  | .critical => 2

/-- The more serious of two tiers. -/
def max (a b : Severity) : Severity :=
  if a.weight ≤ b.weight then b else a

/-- The most serious of several tiers. -/
def worst? (tiers : List Severity) : Option Severity :=
  tiers.foldl (fun worst tier => some (worst.elim tier (max tier))) none

/-- The tier as reports for people show it. -/
def label : Severity → String
  | .info => "INFO"
  | .warning => "WARN"
  | .critical => "CRITICAL"

/-- The tier as data formats write it. -/
def name : Severity → String
  | .info => "info"
  | .warning => "warning"
  | .critical => "critical"

/-- The tier that a data format names. -/
def ofName? (s : String) : Option Severity :=
  [info, warning, critical].find? (·.name == s)

/-- The tier that a setting names: in any case, blanks around it aside, with `error` and `warn`
as further names. -/
def ofSetting? (s : String) : Option Severity :=
  let word := String.ofList (lower (trim s.toList))
  if word == "critical" || word == "error" then some .critical
  else if word == "warning" || word == "warn" then some .warning
  else if word == "info" then some .info
  else none

/-- The order of a report is the declared one the other way round. -/
theorem weight_le_iff {a b : Severity} : a.weight ≤ b.weight ↔ b.rank ≤ a.rank := by
  cases a <;> cases b <;> simp [weight, rank]

/-- The more serious of two tiers is the one that comes first in a report. -/
theorem rank_max (a b : Severity) : (a.max b).rank = min a.rank b.rank := by
  rw [max]
  split
  · next h => exact (Nat.min_eq_right (weight_le_iff.mp h)).symm
  · next h =>
    have hle : a.rank ≤ b.rank := weight_le_iff.mp (Nat.le_of_not_le h)
    exact (Nat.min_eq_left hle).symm

/-- No two tiers have one rank. -/
theorem rank_injective {a b : Severity} (h : a.rank = b.rank) : a = b := by
  cases a <;> cases b <;> simp_all [rank]

end Severity

end SqlReview.Rule

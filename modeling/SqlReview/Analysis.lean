import SqlReview.Lexical.Script
import SqlReview.Query.Structure
import SqlReview.Rule.Catalogue

/-!
# Analyses

The analysis of a statement is its complexity and the recommendations for it; the analysis of a
script is that of its statements. What was found is summed up in counts by tier and in an exit
code.
-/

namespace SqlReview

open SqlReview.Text SqlReview.Lexical SqlReview.Query SqlReview.Rule

/-- What an analysis says of a statement. -/
structure Result where
  complexity : Complexity := {}
  /-- By tier, the most serious one first. -/
  recommendations : List Recommendation := []
  deriving Repr, DecidableEq

/-- The number of recommendations in a tier. -/
def Result.count (r : Result) (severity : Severity) : Nat :=
  r.recommendations.countP (·.severity == severity)

/-- The most serious tier among the recommendations. -/
def Result.worst? (r : Result) : Option Severity :=
  Severity.worst? (r.recommendations.map (·.severity))

/-- The structure of a statement and its analysis. A blank statement has neither tables nor
recommendations. -/
def examine (rules : List Rule) (s : List Char) : Structure × Result :=
  if isBlankText s then ({}, {})
  else
    let found := structureOf s
    let subject := Subject.of s found.metrics
    (found,
      { complexity := { metrics := found.metrics }
        recommendations := evaluate rules subject })

/-- The analysis of a statement by the rules of the catalogue as they are. -/
def analyze (s : List Char) : Result :=
  (examine (enabled {}) s).2

/-- A statement of a script with its analysis. -/
structure Analysis where
  /-- The place in the script, counted from 0. -/
  index : Nat
  /-- The text, trimmed. -/
  sql : List Char
  found : Structure
  result : Result
  deriving Repr, DecidableEq

/-- The analyses of statements, in their order. -/
def examineAll (rules : List Rule) (statements : List (List Char)) : List Analysis :=
  statements.zipIdx.map fun (s, index) =>
    let (found, result) := examine rules s
    { index, sql := trim s, found, result }

/-- The numbers of statements and of recommendations by tier. -/
structure Summary where
  statements : Nat := 0
  critical : Nat := 0
  warning : Nat := 0
  info : Nat := 0
  deriving Repr, DecidableEq

/-- The number of recommendations in a tier, in all of some analyses. -/
def total (severity : Severity) (analyses : List Analysis) : Nat :=
  analyses.foldl (fun n analysis => n + analysis.result.count severity) 0

/-- The summary of some analyses. -/
def Summary.of (analyses : List Analysis) : Summary where
  statements := analyses.length
  critical := total .critical analyses
  warning := total .warning analyses
  info := total .info analyses

/-- The exit code of some analyses: 2 when anything critical was found, 1 when nothing worse than
a warning, and else 0. -/
def exitCode (analyses : List Analysis) : Nat :=
  match Severity.worst? (analyses.filterMap (·.result.worst?)) with
  | some .critical => 2
  | some .warning => 1
  | _ => 0

end SqlReview

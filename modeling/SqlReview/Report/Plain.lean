import SqlReview.Analysis
import SqlReview.Report.Style

/-!
# Reports for people

The analyses of a script and the catalogue of rules as lines of text.
-/

namespace SqlReview.Report

open SqlReview.Text SqlReview.Query SqlReview.Rule

/-- The style in which a tier is shown. -/
def severityStyle : Severity → Style
  | .critical => .boldRed
  | .warning => .yellow
  | .info => .blue

/-- The style in which a level is shown. -/
def levelStyle : Level → Style
  | .low => .green
  | .medium => .yellow
  | .high => .red

/-- A tier in brackets. -/
def severityPiece (severity : Severity) : Piece :=
  { style := some (severityStyle severity), text := "[" ++ severity.label ++ "]" }

/-- A piece without a style. -/
def plain (text : String) : Piece :=
  { text }

/-- Names with commas between them. -/
def joinNames (names : List (List Char)) : String :=
  String.intercalate ", " (names.map String.ofList)

/-- The names of the clauses of a statement. -/
def clauseNames (m : Metrics) : List String :=
  [(m.hasDistinct, "DISTINCT"), (m.hasPrewhere, "PREWHERE"), (m.hasWhere, "WHERE"),
    (m.hasGroupBy, "GROUP BY"), (m.hasOrderBy, "ORDER BY"), (m.hasLimit, "LIMIT")].filterMap
    fun (has, name) => if has then some name else none

/-- The lines that show the metrics of a statement. -/
def metricsLines (m : Metrics) : String :=
  let columns := if m.isSelectStar then "*" else toString m.columnCount
  let clauses := clauseNames m
  s!"Metrics: tables={m.tableCount} joins={m.joinCount} subquery depth={m.subqueryDepth} " ++
    s!"aggregations={m.aggregationCount} columns={columns}\n" ++
    "Clauses: " ++ (if clauses.isEmpty then "none" else String.intercalate ", " clauses) ++ "\n"

/-- The lines that show what was found in a statement. -/
def structureLines (s : Structure) (m : Metrics) : String :=
  (if s.boundNames.isEmpty then "" else "CTEs: " ++ joinNames s.boundNames ++ "\n") ++
    "Tables: " ++ joinNames s.tables ++ "\n" ++ metricsLines m

/-- The lines of a recommendation. -/
def recommendationPieces (r : Recommendation) : List Piece := [
  plain "  ",
  severityPiece r.severity,
  plain (" " ++ r.id ++ ": " ++ r.title ++ "\n" ++ "    " ++ r.description ++ "\n"),
  { style := some .dim, text := "    -> " ++ r.suggestion },
  plain "\n"]

/-- The lines of an analysis. A verbose report also shows the statement and what was found in
it. -/
def analysisPieces (verbose : Bool) (a : Analysis) : List Piece :=
  let complexity := a.result.complexity
  [{ style := some .boldCyan, text := s!"Statement #{a.index + 1}" },
    plain ("\n" ++ (if verbose then String.ofList a.sql ++ "\n" else "") ++ "Complexity: "),
    { style := some (levelStyle complexity.level), text := complexity.level.label },
    plain (s!" (score: {complexity.score.toNat})\n" ++
      (if verbose then structureLines a.found complexity.metrics else "") ++
      (if a.result.recommendations.isEmpty then "No recommendations\n" else ""))] ++
    a.result.recommendations.flatMap recommendationPieces ++ [plain "\n"]

/-- The line that sums up a report. -/
def totals (s : Summary) : String :=
  s!"{s.statements} statement(s): {s.critical} critical, {s.warning} warning(s), {s.info} info"

/-- The pieces of a report on a script. -/
def reportPieces (verbose : Bool) (analyses : List Analysis) : List Piece :=
  analyses.flatMap (analysisPieces verbose) ++
    [{ style := some .bold, text := totals (.of analyses) }, plain "\n"]

/-- A text filled up with spaces to a width. -/
def padTo (width : Nat) (s : String) : String :=
  s ++ "".pushn ' ' (width - s.length)

/-- The pieces of a catalogue: a line for every rule, with ids filled up to the longest. -/
def cataloguePieces (entries : List Entry) : List Piece :=
  let width := (entries.map (·.id.length)).max?.getD 0
  entries.flatMap fun e =>
    [severityPiece e.severity, plain ("  " ++ padTo width e.id ++ "  " ++ e.title ++ "\n")]

end SqlReview.Report

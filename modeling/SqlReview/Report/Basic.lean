import SqlReview.Report.Json
import SqlReview.Report.Plain
import SqlReview.Report.Yaml

/-!
# Reports

A report is printed for people, as JSON or as YAML.
-/

namespace SqlReview.Report

open SqlReview.Rule

/-- The form of a report. -/
inductive Format where
  | text
  | json
  | yaml
  deriving Repr, DecidableEq

/-- How a report is printed. Colour and length matter to reports for people only. -/
structure Options where
  format : Format := .text
  colored : Bool := true
  verbose : Bool := false
  deriving Repr, DecidableEq

/-- The report on a script. -/
def report (options : Options) (analyses : List Analysis) : String :=
  match options.format with
  | .text => printPieces options.colored (reportPieces options.verbose analyses)
  | .json => Json.print 0 (ofAnalyses analyses)
  | .yaml => Yaml.print 0 (ofAnalyses analyses)

/-- The list of some rules. -/
def reportEntries (options : Options) (entries : List Entry) : String :=
  match options.format with
  | .text => printPieces options.colored (cataloguePieces entries)
  | .json => Json.print 0 (ofEntries entries)
  | .yaml => Yaml.print 0 (ofEntries entries)

end SqlReview.Report

import SqlReview.Analysis

/-!
# Documents

The tree that a report is in a data format: texts, numbers, flags, lists, and records whose
fields stand in a fixed order. Formats differ in how they print such a tree only.
-/

namespace SqlReview.Report

open SqlReview.Query SqlReview.Rule

/-- A tree of data. -/
inductive Document where
  | text (s : String)
  | number (n : Nat)
  | flag (b : Bool)
  | list (items : List Document)
  | record (fields : List (String × Document))
  deriving Repr

/-- The document of some metrics. -/
def ofMetrics (m : Metrics) : Document :=
  .record [
    ("tableCount", .number m.tableCount),
    ("joinCount", .number m.joinCount),
    ("subqueryDepth", .number m.subqueryDepth),
    ("aggregationCount", .number m.aggregationCount),
    ("hasDistinct", .flag m.hasDistinct),
    ("hasGroupBy", .flag m.hasGroupBy),
    ("hasOrderBy", .flag m.hasOrderBy),
    ("hasLimit", .flag m.hasLimit),
    ("hasPrewhere", .flag m.hasPrewhere),
    ("hasWhere", .flag m.hasWhere),
    ("isSelectStar", .flag m.isSelectStar),
    ("columnCount", .number m.columnCount)]

/-- The document of a complexity. -/
def ofComplexity (c : Complexity) : Document :=
  .record [
    ("score", .number c.score.toNat),
    ("level", .text c.level.name),
    ("metrics", ofMetrics c.metrics)]

/-- The document of a recommendation. -/
def ofRecommendation (r : Recommendation) : Document :=
  .record [
    ("id", .text r.id),
    ("severity", .text r.severity.name),
    ("title", .text r.title),
    ("description", .text r.description),
    ("suggestion", .text r.suggestion)]

/-- The document of what is listed of a rule. -/
def ofEntry (e : Entry) : Document :=
  .record [
    ("id", .text e.id),
    ("title", .text e.title),
    ("severity", .text e.severity.name)]

/-- The document of a structure. -/
def ofStructure (s : Structure) : Document :=
  .record [
    ("cteNames", .list (s.boundNames.map (.text <| String.ofList ·))),
    ("tables", .list (s.tables.map (.text <| String.ofList ·))),
    ("mainQuery", .text (String.ofList s.mainQuery)),
    ("metrics", ofMetrics s.metrics)]

/-- The fields that a result has in every document. -/
def resultFields (r : Result) : List (String × Document) := [
  ("complexity", ofComplexity r.complexity),
  ("recommendations", .list (r.recommendations.map ofRecommendation))]

/-- The document of a result. -/
def ofResult (r : Result) : Document :=
  .record (resultFields r)

/-- The document of an analysis. -/
def ofAnalysis (a : Analysis) : Document :=
  .record ([("index", .number a.index), ("sql", .text (String.ofList a.sql))] ++
    resultFields a.result)

/-- The document of a summary. -/
def ofSummary (s : Summary) : Document :=
  .record [
    ("statements", .number s.statements),
    ("critical", .number s.critical),
    ("warning", .number s.warning),
    ("info", .number s.info)]

/-- The document of the analyses of a script. -/
def ofAnalyses (analyses : List Analysis) : Document :=
  .record [
    ("statements", .list (analyses.map ofAnalysis)),
    ("summary", ofSummary (.of analyses))]

/-- The document of what is listed of some rules. -/
def ofEntries (entries : List Entry) : Document :=
  .list (entries.map ofEntry)

end SqlReview.Report

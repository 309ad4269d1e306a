import SqlReview.Query.Complexity
import SqlReview.Rule.Severity
import SqlReview.Text.Split
import SqlReview.Text.WordChar

/-!
# The log

What is noted while the program runs, at which level, and which of the notes are written. A
filter is a list of directives; the one with the longest target that fits decides.
-/

namespace SqlReview.CommandLine

open SqlReview.Text SqlReview.Query SqlReview.Rule

/-- How much is written to the log, from the least to the most. -/
inductive LogLevel where
  | error
  | warn
  | info
  | debug
  | trace
  deriving Repr, DecidableEq

namespace LogLevel

/-- All levels. -/
def all : List LogLevel := [.error, .warn, .info, .debug, .trace]

/-- The level as an option names it. -/
def name : LogLevel → String
  | .error => "error"
  | .warn => "warn"
  | .info => "info"
  | .debug => "debug"
  | .trace => "trace"

/-- The level as the log shows it. -/
def label : LogLevel → String
  | .error => "ERROR"
  | .warn => "WARN"
  | .info => "INFO"
  | .debug => "DEBUG"
  | .trace => "TRACE"

/-- How much a level lets through: 0 would be nothing. -/
def verbosity : LogLevel → Nat
  | .error => 1
  | .warn => 2
  | .info => 3
  | .debug => 4
  | .trace => 5

/-- The level that an option names. -/
def ofName? (s : String) : Option LogLevel :=
  all.find? (·.name == s)

end LogLevel

/-- What is noted. -/
inductive Event where
  | settingsRead (path : String) (disabled : Nat)
  | ruleFired (id : String) (severity : Severity)
  | statementAnalyzed (complexity : Complexity) (recommendations : Nat)
  | finished (statements : Nat)
  deriving Repr, DecidableEq

namespace Event

/-- The target of an event: the part of the program that it comes from. -/
def target : Event → String
  | .settingsRead _ _ => "sql_query_advisor::config"
  | .ruleFired _ _ => "sql_query_advisor::rules"
  | .statementAnalyzed _ _ => "sql_query_advisor::analyzer"
  | .finished _ => "sql_query_advisor::app::analyze"

/-- The level of an event. -/
def level : Event → LogLevel
  | .settingsRead _ _ => .debug
  | .ruleFired _ _ => .trace
  | .statementAnalyzed _ _ => .debug
  | .finished _ => .info

/-- Metrics as the log shows them. -/
def metricsText (m : Metrics) : String :=
  let fields := [
    ("table_count", toString m.tableCount), ("join_count", toString m.joinCount),
    ("subquery_depth", toString m.subqueryDepth),
    ("aggregation_count", toString m.aggregationCount),
    ("has_distinct", toString m.hasDistinct), ("has_group_by", toString m.hasGroupBy),
    ("has_order_by", toString m.hasOrderBy), ("has_limit", toString m.hasLimit),
    ("has_prewhere", toString m.hasPrewhere), ("has_where", toString m.hasWhere),
    ("is_select_star", toString m.isSelectStar), ("column_count", toString m.columnCount)]
  "QueryMetrics \x7b " ++
    String.intercalate ", " (fields.map fun (name, value) => name ++ ": " ++ value) ++ " \x7d"

/-- What the log says of an event. -/
def message : Event → String
  | .settingsRead path disabled => s!"loaded config file path={path} disabled={disabled}"
  | .ruleFired id severity => s!"rule fired rule=\"{id}\" severity={severity.label}"
  | .statementAnalyzed c n =>
    s!"analyzed statement metrics={metricsText c.metrics} score={c.score.toNat} " ++
      s!"level={c.level.label} recommendations={n}"
  | .finished n => s!"analysis finished statements={n}"

/-- The line of an event, without the time. -/
def line (e : Event) : String :=
  "".pushn ' ' (5 - e.level.label.length) ++ e.level.label ++ " " ++ e.message

end Event

/-- How much is let through from the targets that begin with a text; from every target, when it is
empty. -/
structure Directive where
  target : String := ""
  verbosity : Nat
  deriving Repr, DecidableEq

/-- The verbosity that a filter names: a level in any case, or a figure. -/
def verbosity? (s : String) : Option Nat :=
  let word := String.ofList (s.toList.map Char.toLower)
  if word == "off" || word == "0" then some 0
  else (LogLevel.all.find? fun l => l.name == word || toString l.verbosity == word).map
    (·.verbosity)

/-- A directive: a verbosity, a target, or both with an equals sign between them. A target without
a verbosity lets everything through. -/
def directive? (s : String) : Option Directive :=
  let isTarget := fun (s : List Char) =>
    !s.isEmpty && s.all fun c => isWordChar c || c == ':' || c == '-'
  match splitAt '=' s.toList with
  | [word] =>
    match verbosity? s with
    | some verbosity => some { verbosity }
    | none => if isTarget word then some { target := s, verbosity := 5 } else none
  | [target, level] =>
    if !isTarget target then none
    else
      let verbosity := if level.isEmpty then some 5 else verbosity? (String.ofList level)
      verbosity.map ({ target := String.ofList target, verbosity := · })
  | _ => none

/-- The directives of a filter that commas separate. Where there is none, errors are let
through. -/
def directives? (s : String) : Option (List Directive) :=
  match (splitAt ',' s.toList).filter (!·.isEmpty) with
  | [] => some [{ verbosity := 1 }]
  | parts => parts.mapM fun part => directive? (String.ofList part)

/-- The verbosity that directives let through from a target. Of two that fit as well, the later
one counts. -/
def verbosityOf (directives : List Directive) (target : String) : Nat :=
  let fitting := directives.filter fun d => d.target.toList.isPrefixOf target.toList
  let best := fitting.foldl (fun (best : Option Directive) d =>
    match best with
    | some b => if b.target.length ≤ d.target.length then some d else some b
    | none => some d) none
  best.elim 0 (·.verbosity)

/-- The directives of a run: the level that an option gives, or else the filter in the environment,
or else warnings. -/
def runDirectives (option : Option LogLevel) (filter : Option String) : List Directive :=
  match option with
  | some level => [{ verbosity := level.verbosity }]
  | none => (filter.bind directives?).getD [{ verbosity := 2 }]

/-- The lines of the events that are let through. -/
def logLines (directives : List Directive) (events : List Event) : List String :=
  (events.filter fun e => e.level.verbosity ≤ verbosityOf directives e.target).map Event.line

end SqlReview.CommandLine

import SqlReview.CommandLine.Arguments
import SqlReview.Failure
import SqlReview.Settings.Data

/-!
# Runs

What the program does once it knows what is asked: it reads settings, analyzes statements and
lists rules. A run sees files, the standard input and variables through a `World`, notes events,
and either answers or fails.
-/

namespace SqlReview.CommandLine

open SqlReview.Text SqlReview.Lexical SqlReview.Report SqlReview.Rule

/-- What a run can see. -/
structure World where
  /-- The text of the file at a path. -/
  read : String → Except FileFault String
  /-- The text of the standard input. -/
  input : Except FileFault String := .ok ""
  /-- The value of a variable. -/
  environment : String → Option String := fun _ => none
  /-- Whether the output is shown on a terminal. -/
  onTerminal : Bool := false

/-- A computation that notes events and may fail. -/
abbrev Run := ExceptT Failure (StateM (List Event))

/-- Notes an event. -/
def note (event : Event) : Run Unit :=
  modify (· ++ [event])

/-- The outcome of a run and the events noted. -/
def Run.outcome (run : Run α) : Except Failure α × List Event :=
  StateT.run (ExceptT.run run) []

/-- The outcome of a run. -/
def Run.result (run : Run α) : Except Failure α :=
  run.outcome.1

/-- Whether something stands at a path. -/
def World.exists (world : World) (path : String) : Bool :=
  match world.read path with
  | .error .missing => false
  | .error .notDirectory => false
  | _ => true

/-- The text of the file at a path. -/
def World.readFile (world : World) (path : String) : Except Failure String :=
  (world.read path).mapError (.unreadable path)

/-- The settings in a TOML text. -/
def settingsOfText (text : String) : Except Failure Settings :=
  match Settings.ofToml? text with
  | some settings => .ok settings
  | none => .error (.badSettings "")

/-- The settings in a file. -/
def settingsOfFile (world : World) (path : String) : Run Settings := do
  let text ← world.readFile path
  match Settings.ofToml? text with
  | none => throw (.badSettings ("Invalid config file '" ++ path ++ "': "))
  | some settings =>
    note (.settingsRead path settings.disabled.length)
    return settings

/-- The settings in those of the files that are there, a later file over an earlier one, and over
all of them the ids that a list disables. -/
def loadSettings (world : World) (paths : List String) (disabled : Option String) :
    Run Settings := do
  let mut settings : Settings := {}
  for path in paths do
    if world.exists path then
      settings := settings.merge (← settingsOfFile world path)
  return disabled.elim settings settings.disableList

/-- A path below another one. -/
def joinPath (base name : String) : String :=
  if base.isEmpty || base.endsWith "/" then base ++ name else base ++ "/" ++ name

/-- The paths of settings files: one below the home directory, and one in the working directory. -/
def settingsPaths (home : Option String) : List String :=
  (home.map fun home =>
    ([".config", "sql-query-advisor", "config.toml"].foldl joinPath home)).toList ++
    [".sql-advisor.toml"]

/-- The settings of a run of the program. -/
def programSettings (world : World) : Run Settings :=
  loadSettings world (settingsPaths (world.environment "HOME"))
    (world.environment "SQL_ADVISOR_DISABLED_RULES")

/-- Where a script comes from. -/
inductive Source where
  /-- The file at a path, or the standard input, when the path is a hyphen. -/
  | file (path : String)
  | given (text : String)
  deriving Repr, DecidableEq

/-- The source that is asked for. A file counts more than a text. -/
def Source.select (queries sql : Option String) : Except Failure Source :=
  match queries, sql with
  | some path, _ => .ok (.file path)
  | none, some text => .ok (.given text)
  | none, none => .error (.badInput "either --queries or --sql is required")

/-- The text at a path; a hyphen stands for the standard input. -/
def readQueries (world : World) (path : String) : Except Failure String :=
  if path == "-" then world.input.mapError (.unreadable "stdin") else world.readFile path

/-- The script of a source. It must not be blank. -/
def Source.script (world : World) (source : Source) : Except Failure String := do
  let text ← match source with
    | .file path => readQueries world path
    | .given text => .ok text
  if isBlankText text.toList then .error (.badInput "no SQL to analyze") else .ok text

/-- Notes what the analysis of a statement comes to. -/
def noteAnalysis (rules : List Rule) (a : Analysis) : Run Unit := do
  let subject := Subject.of a.sql a.result.complexity.metrics
  for r in fired rules subject do
    note (.ruleFired r.id r.severity)
  note (.statementAnalyzed a.result.complexity a.result.recommendations.length)

/-- An exit code and an output. -/
structure Answer where
  exitCode : Nat
  output : String
  deriving Repr, DecidableEq

/-- The report on a script under settings, and its exit code. -/
def analyzeScript (settings : Settings) (options : Options) (script : String) : Run Answer := do
  let statements := statements script.toList
  if statements.isEmpty then
    throw (.badInput "input contains only comments or separators")
  let rules := enabled settings
  let analyses := examineAll rules statements
  for a in analyses do
    noteAnalysis rules a
  note (.finished analyses.length)
  return { exitCode := exitCode analyses, output := report options analyses }

/-- The report on what a source holds. -/
def analyzeSource (world : World) (settings : Settings) (options : Options) (source : Source) :
    Run Answer := do
  let script ← source.script world
  analyzeScript settings options script

/-- The list of the rules that settings leave enabled. -/
def listRules (settings : Settings) (options : Options) : String :=
  reportEntries options (entries (enabled settings))

/-- Whether reports for people are coloured: by force, or on a terminal where nothing forbids it. -/
def World.showsColor (world : World) : Bool :=
  let isOn := fun name => (world.environment name).map (· != "0")
  isOn "CLICOLOR_FORCE" == some true ||
    (isOn "NO_COLOR").isNone && isOn "CLICOLOR" != some false && world.onTerminal

/-- Carries out a command. -/
def Command.run (world : World) (command : Command) : Run Answer := do
  let settings ← programSettings world
  match command with
  | .analyze request =>
    let source ← Source.select request.queries request.sql
    let options : Options :=
      { format := request.format
        colored := !request.noColor && world.showsColor
        verbose := request.verbose }
    let answer ← analyzeSource world (settings.disable request.disabled) options source
    return { answer with output := answer.output ++ "\n" }
  | .rules request =>
    let options : Options :=
      { format := request.format, colored := !request.noColor && world.showsColor }
    return { exitCode := 0, output := listRules settings options }

/-- The end of a run of the program: its exit code, its output, the failure that is reported, the
lines of the log, and the refusal of its arguments. -/
structure Ending where
  exitCode : Nat
  output : String := ""
  failure : Option Failure := none
  log : List String := []
  refusal : Option Refusal := none

/-- The output of a refusal. -/
def Refusal.output : Refusal → String
  | .version => "sql-query-advisor 0.1.0\n"
  | _ => ""

/-- Runs the program. A failure has the exit code 1. -/
def run (world : World) (args : List String) : Ending :=
  match parse args with
  | .error refusal =>
    { exitCode := refusal.exitCode, output := refusal.output, refusal := some refusal }
  | .ok invocation =>
    let (outcome, events) := (invocation.command.run world).outcome
    let log := logLines (runDirectives invocation.logLevel (world.environment "RUST_LOG")) events
    match outcome with
    | .ok answer => { exitCode := answer.exitCode, output := answer.output, log }
    | .error failure => { exitCode := 1, failure := some failure, log }

end SqlReview.CommandLine

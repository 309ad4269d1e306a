import SqlReview.CommandLine.Log
import SqlReview.Report.Basic

/-!
# Arguments

The grammar of the command line. There are two commands, `analyze` and `rules`, and options before
and after them. A value follows its option as the next argument, after an equals sign, or, for a
one-letter option, right after the letter. Arguments are read from left to right, and an option
is complete only when the next one is met: that is when its value is judged.
-/

namespace SqlReview.CommandLine

open SqlReview.Report

/-- Why arguments are not carried out. -/
inductive Refusal where
  | help
  | version
  /-- No argument at all. -/
  | nothingAsked
  | missingCommand
  | unknownCommand
  | unknownArgument
  /-- Neither a file nor a text to analyze. -/
  | missingInput
  /-- Options that exclude each other, or an option given twice. -/
  | conflict
  /-- A value that is not allowed, or a missing one. -/
  | invalidValue
  /-- A value for an option that takes none. -/
  | needlessValue
  deriving Repr, DecidableEq

/-- The exit code of a refusal. -/
def Refusal.exitCode : Refusal → Nat
  | .help => 0
  | .version => 0
  | _ => 2

/-- The options. -/
inductive Key where
  | logLevel
  | queries
  | sql
  | format
  | verbose
  | noColor
  | disable
  | help
  | version
  deriving Repr, DecidableEq

namespace Key

/-- The long name of an option. -/
def long : Key → String
  | .logLevel => "log-level"
  | .queries => "queries"
  | .sql => "sql"
  | .format => "output-format"
  | .verbose => "verbose"
  | .noColor => "no-color"
  | .disable => "disable"
  | .help => "help"
  | .version => "version"

/-- The one-letter name of an option. -/
def short? : Key → Option Char
  | .queries => some 'q'
  | .format => some 'f'
  | .verbose => some 'v'
  | .help => some 'h'
  | .version => some 'V'
  | _ => none

/-- Whether an option takes a value. -/
def takesValue : Key → Bool
  | .logLevel => true
  | .queries => true
  | .sql => true
  | .format => true
  | .disable => true
  | _ => false

/-- Whether an option may be given more than once. -/
def isRepeatable : Key → Bool
  | .disable => true
  | _ => false

end Key

/-- The format that an option names. -/
def formatOfName? : String → Option Format
  | "text" => some .text
  | "json" => some .json
  | "yaml" => some .yaml
  | _ => none

/-- Whether a value is allowed for an option. -/
def Key.accepts (key : Key) (value : String) : Bool :=
  match key with
  | .logLevel => (LogLevel.ofName? value).isSome
  | .format => (formatOfName? value).isSome
  | .queries => !value.isEmpty
  | _ => true

/-- What may be given at one place of the command line: options, and names of commands. -/
structure Place where
  keys : List Key
  commands : List String := []

/-- Before the command. -/
def topPlace : Place where
  keys := [.logLevel, .help, .version]
  commands := ["analyze", "rules", "help"]

/-- After `analyze`. -/
def analyzePlace : Place where
  keys := [.queries, .sql, .format, .verbose, .noColor, .disable, .logLevel, .help]

/-- After `rules`. -/
def rulesPlace : Place where
  keys := [.format, .noColor, .logLevel, .help]

/-- The options that have been read: those complete, in their order, and the last one that may
still wait for its value. -/
structure Given where
  complete : List (Key × String) := []
  pending : Option (Key × Option String) := none
  deriving Repr, DecidableEq

namespace Given

/-- Whether the next argument may be a value. -/
def isWaiting (g : Given) : Bool :=
  match g.pending with
  | some (_, none) => true
  | _ => false

/-- Completes an option. -/
def record (g : Given) (key : Key) (value : String) : Except Refusal Given :=
  if !key.isRepeatable && g.complete.any (·.1 == key) then .error .conflict
  else if key.accepts value then .ok { g with complete := g.complete ++ [(key, value)] }
  else .error .invalidValue

/-- Completes the option that waits. -/
def settle (g : Given) : Except Refusal Given :=
  match g.pending with
  | none => .ok g
  | some (_, none) => .error .invalidValue
  | some (key, some value) => record { g with pending := none } key value

/-- An option with its value in the same argument, or one that takes none. -/
def take (g : Given) (key : Key) (value : String) : Except Refusal Given := do
  let g ← g.settle
  match key with
  | .help => .error .help
  | .version => .error .version
  | _ => g.record key value

/-- An option whose value is to follow. -/
def await (g : Given) (key : Key) : Except Refusal Given := do
  let g ← g.settle
  .ok { g with pending := some (key, none) }

/-- The values of an option. -/
def values (g : Given) (key : Key) : List String :=
  (g.complete.filter (·.1 == key)).map (·.2)

/-- The value of an option. -/
def value? (g : Given) (key : Key) : Option String :=
  (g.values key).head?

/-- Whether an option is given. -/
def has (g : Given) (key : Key) : Bool :=
  (g.value? key).isSome

end Given

/-- A text cut at its first equals sign. -/
def cutAtEquals (s : List Char) : List Char × Option (List Char) :=
  (s.takeWhile (· != '='),
    if s.contains '=' then some (s.dropWhile (· != '=')).tail else none)

/-- An option by its long name, the two hyphens left out. -/
def readLong (place : Place) (g : Given) (s : List Char) : Except Refusal Given :=
  let (name, value) := cutAtEquals s
  match place.keys.find? (·.long == String.ofList name) with
  | none => .error .unknownArgument
  | some key =>
    match key.takesValue, value with
    | true, some value => g.take key (String.ofList value)
    | true, none => g.await key
    | false, some _ => .error .needlessValue
    | false, none => g.take key ""

/-- Options by their letters, the hyphen left out. -/
def readShort (place : Place) (g : Given) : List Char → Except Refusal Given
  | [] => .ok g
  | c :: s =>
    match place.keys.find? (·.short? == some c) with
    | none => .error .unknownArgument
    | some key =>
      if key.takesValue then
        match s with
        | [] => g.await key
        | '=' :: value => g.take key (String.ofList value)
        | value => g.take key (String.ofList value)
      else do readShort place (← g.take key "") s

/-- An argument that is neither an option nor a value nor a command. -/
def strayArgument (place : Place) (trailing : Bool) (arg : String) : Refusal :=
  if place.commands.isEmpty || (trailing && place.commands.contains arg) then .unknownArgument
  else .unknownCommand

/-- The options at a place, and the command that follows with its arguments. After two hyphens
alone, options and commands are no longer looked for. -/
def readArguments (place : Place) (g : Given) (trailing : Bool) :
    List String → Except Refusal (Given × Option (String × List String))
  | [] => .ok (g, none)
  | arg :: args =>
    if trailing then .error (strayArgument place trailing arg)
    else if !g.isWaiting && place.commands.contains arg then .ok (g, some (arg, args))
    else match arg.toList with
      | ['-', '-'] => readArguments place g true args
      | '-' :: '-' :: s => do readArguments place (← readLong place g s) false args
      | '-' :: c :: s => do readArguments place (← readShort place g (c :: s)) false args
      | _ =>
        match g.pending with
        | some (key, none) =>
          readArguments place { g with pending := some (key, some arg) } false args
        | _ => .error (strayArgument place trailing arg)

/-- The options at a place that no command may follow. -/
def readAll (place : Place) (args : List String) : Except Refusal Given := do
  let (g, _) ← readArguments place {} false args
  g.settle

/-- What is asked of a run of `analyze`. -/
structure AnalyzeRequest where
  queries : Option String := none
  sql : Option String := none
  format : Format := .text
  verbose : Bool := false
  noColor : Bool := false
  disabled : List String := []
  deriving Repr, DecidableEq

/-- What is asked of a run of `rules`. -/
structure RulesRequest where
  format : Format := .text
  noColor : Bool := false
  deriving Repr, DecidableEq

/-- What is asked. -/
inductive Command where
  | analyze (request : AnalyzeRequest)
  | rules (request : RulesRequest)
  deriving Repr, DecidableEq

/-- What the arguments ask for, and how much is to be logged. -/
structure Invocation where
  logLevel : Option LogLevel := none
  command : Command
  deriving Repr, DecidableEq

/-- The format that is asked for. -/
def Given.format (g : Given) : Format :=
  ((g.value? .format).bind formatOfName?).getD .text

/-- The log level that is asked for. -/
def Given.logLevel (g : Given) : Option LogLevel :=
  (g.value? .logLevel).bind LogLevel.ofName?

/-- What is asked of `analyze`: a file or a text, and not both. -/
def analyzeRequest (g : Given) : Except Refusal AnalyzeRequest :=
  if g.has .queries && g.has .sql then .error .conflict
  else if !g.has .queries && !g.has .sql then .error .missingInput
  else .ok {
    queries := g.value? .queries
    sql := g.value? .sql
    format := g.format
    verbose := g.has .verbose
    noColor := g.has .noColor
    disabled := g.values .disable }

/-- What follows `help`: at most the name of one command. -/
def helpRefusal (args : List String) : Refusal :=
  match args with
  | [] => .help
  | [name] => if topPlace.commands.contains name then .help else .unknownCommand
  | _ => .unknownCommand

/-- A command and the log level given after it. -/
def readCommand (name : String) (args : List String) :
    Except Refusal (Command × Option LogLevel) := do
  if name == "analyze" then
    let g ← readAll analyzePlace args
    .ok (.analyze (← analyzeRequest g), g.logLevel)
  else if name == "rules" then
    let g ← readAll rulesPlace args
    .ok (.rules { format := g.format, noColor := g.has .noColor }, g.logLevel)
  else .error (helpRefusal args)

/-- What the arguments ask for. The log level after the command counts more than that before it. -/
def parse (args : List String) : Except Refusal Invocation := do
  let (g, command) ← readArguments topPlace {} false args
  match command with
  | none =>
    let g ← g.settle
    .error (if g.complete.isEmpty then .nothingAsked else .missingCommand)
  | some (name, rest) =>
    let (command, logLevel) ← readCommand name rest
    let g ← g.settle
    .ok { logLevel := logLevel.or g.logLevel, command }

end SqlReview.CommandLine

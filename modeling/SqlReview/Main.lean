import SqlReview.CommandLine.Run
import SqlReview.FileTree

/-!
# The program

The command line as it meets the system: it reads the files that a run may ask for, carries the
run out, and prints what it ends in.
-/

open SqlReview SqlReview.CommandLine

/-- The fault that an error of the system is. -/
def faultOf : IO.Error → FileFault
  | .noFileOrDirectory .. => .missing
  | .inappropriateType _ 20 _ => .notDirectory
  | .inappropriateType .. => .directory
  | .permissionDenied _ code reason => .other (reason ++ " (os error " ++ toString code ++ ")")
  | error => .other (toString error)

/-- The text of the file at a path. -/
def readText (path : String) : IO (Except FileFault String) := do
  try return FileTree.decode (← IO.FS.readBinFile path)
  catch error => return .error (faultOf error)

/-- The files that a run may ask for, as they are now. -/
def readFiles (paths : List String) : IO (String → Except FileFault String) := do
  let files ← paths.mapM fun path => return (path, ← readText path)
  return fun path => ((files.find? (·.1 == path)).map (·.2)).getD (.error .missing)

/-- The path of the script that the arguments ask for. -/
def queriesPath? (args : List String) : Option String :=
  match parse args with
  | .ok { command := .analyze request, .. } => request.queries
  | _ => none

/-- The bytes of a stream up to its end. -/
partial def readAllBytes (stream : IO.FS.Stream) (read : ByteArray) : IO ByteArray := do
  let bytes ← stream.read 65536
  if bytes.isEmpty then return read else readAllBytes stream (read ++ bytes)

/-- The text of the standard input, when the arguments ask for it. -/
def readInput (args : List String) : IO (Except FileFault String) := do
  if queriesPath? args == some "-" then
    return FileTree.decode (← readAllBytes (← IO.getStdin) .empty)
  else return .ok ""

/-- What is said of a refusal. -/
def refusalText : Refusal → String
  | .help => "usage: analyze (-q FILE | --sql TEXT) [options], or rules [options]"
  | .version => ""
  | .nothingAsked => "error: a command is needed: analyze or rules"
  | .missingCommand => "error: a command is needed: analyze or rules"
  | .unknownCommand => "error: there is no such command"
  | .unknownArgument => "error: there is no such argument"
  | .missingInput => "error: --queries or --sql is needed"
  | .conflict => "error: an option is given twice or excludes another one"
  | .invalidValue => "error: a value is missing or not allowed"
  | .needlessValue => "error: an option takes no value"

/-- The program: it reads the files it needs, runs, and writes what there is to say. -/
def main (args : List String) : IO UInt32 := do
  let names := ["HOME", "SQL_ADVISOR_DISABLED_RULES", "CLICOLOR_FORCE", "CLICOLOR", "NO_COLOR",
    "RUST_LOG"]
  let values ← names.mapM fun name => return (name, ← IO.getEnv name)
  let environment := fun name => (values.find? (·.1 == name)).bind (·.2)
  let read ← readFiles (settingsPaths (environment "HOME") ++ (queriesPath? args).toList)
  let onTerminal ← (← IO.getStdout).isTty
  let ending := run { read, input := ← readInput args, environment, onTerminal } args
  for line in ending.log do
    IO.eprintln line
  IO.print ending.output
  match ending.refusal with
  | none | some .version => pure ()
  | some .help => IO.println (refusalText .help)
  | some refusal => IO.eprintln (refusalText refusal)
  if let some failure := ending.failure then
    IO.eprintln ("Error: " ++ failure.summary)
  return ending.exitCode.toUInt32

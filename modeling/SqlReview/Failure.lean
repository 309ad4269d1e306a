/-!
# Failures

What can go wrong apart from the command line itself, and what is said of it.
-/

namespace SqlReview

/-- Why a file cannot be read as a text. -/
inductive FileFault where
  | missing
  | directory
  | notDirectory
  | notText
  /-- A fault of another kind, as the system words it. -/
  | other (reason : String)
  deriving Repr, DecidableEq

/-- What the system says of a fault. -/
def FileFault.message : FileFault → String
  | .missing => "No such file or directory (os error 2)"
  | .directory => "Is a directory (os error 21)"
  | .notDirectory => "Not a directory (os error 20)"
  | .notText => "stream did not contain valid UTF-8"
  | .other reason => reason

/-- What can go wrong. -/
inductive Failure where
  /-- Settings that cannot be read, with what is said of them. -/
  | badSettings (message : String)
  /-- An input that there is nothing to analyze in. -/
  | badInput (message : String)
  /-- A file that cannot be read. -/
  | unreadable (path : String) (fault : FileFault)
  /-- A report that cannot be written in its format. -/
  | unprintable (format reason : String)
  deriving Repr, DecidableEq

namespace Failure

/-- Whether the fault lies with the request. -/
def isBadRequest : Failure → Bool
  | .badSettings _ => true
  | .badInput _ => true
  | .unreadable _ _ => false
  | .unprintable _ _ => false

/-- What is shown of a failure. -/
def summary (f : Failure) : String :=
  if f.isBadRequest then "Bad request" else "Internal server error"

/-- What is said of a failure in full. -/
def message : Failure → String
  | .badSettings message => message
  | .badInput message => "Invalid input: " ++ message
  | .unreadable path fault => "Failed to read file '" ++ path ++ "': " ++ fault.message
  | .unprintable format reason => "Failed to serialize " ++ format ++ " output: " ++ reason

end Failure

end SqlReview

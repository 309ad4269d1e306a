import SqlReview.Failure
import SqlReview.Text.Split

/-!
# File trees

Files and directories under one working directory, and how a path leads to one of them. Outside of
the working directory there are only the directories on the way to it from the root.
-/

namespace SqlReview

open SqlReview.Text

/-- What stands at a path. -/
inductive Node where
  | file (bytes : ByteArray)
  | directory

/-- Files and directories by the names on the way to them. A directory is also there when
something is in it. -/
structure FileTree where
  entries : List (List String × Node) := []

namespace FileTree

/-- The names that a path consists of. -/
def names (path : String) : List String :=
  (splitAt '/' path.toList).map String.ofList

/-- Whether a name in a path leads nowhere. -/
def isStill (name : String) : Bool :=
  name == "" || name == "."

/-- The tree with one more entry. -/
def add (tree : FileTree) (path : String) (node : Node) : FileTree :=
  { entries := tree.entries ++ [((names path).filter (!isStill ·), node)] }

/-- What stands at the end of some names. -/
def node? (tree : FileTree) (at_ : List String) : Option Node :=
  match tree.entries.find? (·.1 == at_) with
  | some (_, node) => some node
  | none =>
    if at_.isEmpty || tree.entries.any (fun e => at_.isPrefixOf e.1) then some .directory else none

/-- What stands at the end of a way that begins outside of the working directory. -/
def outside (way : List String) : Except FileFault Node :=
  if way.all fun name => isStill name || name == ".." then .ok .directory else .error .missing

/-- What stands at the end of a way that begins in a directory, whose own way is given. -/
def walk (tree : FileTree) (here : List String) : (way : List String) → Except FileFault Node
  | [] =>
    match tree.node? here with
    | some node => .ok node
    | none => .error .missing
  | name :: way =>
    match tree.node? here with
    | none => .error .missing
    | some (.file _) => .error .notDirectory
    | some .directory =>
      if isStill name then tree.walk here way
      else if name == ".." then
        if here.isEmpty then outside way else tree.walk here.dropLast way
      else tree.walk (here ++ [name]) way

/-- What stands at a path. -/
def lookup (tree : FileTree) (path : String) : Except FileFault Node :=
  if path.isEmpty then .error .missing
  else if path.startsWith "/" then outside (names path)
  else tree.walk [] (names path)

/-- The text of bytes in UTF-8. -/
def decode (bytes : ByteArray) : Except FileFault String :=
  match String.fromUTF8? bytes with
  | some text => .ok text
  | none => .error .notText

/-- The text of a file. -/
def read (tree : FileTree) (path : String) : Except FileFault String := do
  match ← tree.lookup path with
  | .file bytes => decode bytes
  | .directory => .error .directory

end FileTree

end SqlReview

import SqlReview.Report.Document
import SqlReview.Report.Scalar

/-!
# YAML

Documents as YAML in block style. The fields of a record stand at one column, the items of a list
at the column of the field that the list belongs to, and the fields of an item two columns
further. A list without items is written in one piece.
-/

namespace SqlReview.Report.Yaml

/-- Spaces up to a column. -/
def indentation (column : Nat) : String :=
  "".pushn ' ' column

/-- A text with a line feed at its end. -/
def endLine (s : String) : String :=
  if s.endsWith "\n" then s else s ++ "\n"

/-- Lines, all but the first of which begin at the given column. -/
def stack (column : Nat) (parts : List String) : String :=
  String.intercalate (indentation column) parts

mutual

/-- What is written after the name of a field that stands at the given column. -/
def field (column : Nat) : Document → String
  | .text s => " " ++ endLine (String.ofList (Scalar.print (column + 2) s.toList))
  | .number n => " " ++ toString n ++ "\n"
  | .flag b => if b then " true\n" else " false\n"
  | .list [] => " []\n"
  | .list (item :: items) =>
    "\n" ++ indentation column ++ stack column (printItems column (item :: items))
  | .record [] => " \x7b\x7d\n"
  | .record (f :: fields) =>
    "\n" ++ indentation (column + 2) ++ stack (column + 2) (printFields (column + 2) (f :: fields))

/-- A document that begins at the given column. -/
def print (column : Nat) : Document → String
  | .text s => endLine (String.ofList (Scalar.print column s.toList))
  | .number n => toString n ++ "\n"
  | .flag b => if b then "true\n" else "false\n"
  | .list [] => "[]\n"
  | .list (item :: items) => stack column (printItems column (item :: items))
  | .record [] => "\x7b\x7d\n"
  | .record (f :: fields) => stack column (printFields column (f :: fields))

/-- The items of a list at the given column. -/
def printItems (column : Nat) : List Document → List String
  | [] => []
  | item :: items => ("- " ++ print (column + 2) item) :: printItems column items

/-- The fields of a record at the given column. -/
def printFields (column : Nat) : List (String × Document) → List String
  | [] => []
  | (name, value) :: fields => (name ++ ":" ++ field column value) :: printFields column fields

end

end SqlReview.Report.Yaml

import SqlReview.Toml.Lexeme

/-!
# TOML tables

The values of a TOML document, and how its statements fill its tables. A table remembers how it
came to be, because that decides what may be added to it later: a table has one header at most,
dotted keys add only to tables that dotted keys have made, and nothing is added to an inline
table.
-/

namespace SqlReview.Toml

/-- How a table came to be. -/
inductive Origin where
  /-- By a header of its own. -/
  | header
  /-- By the header of a table inside of it. -/
  | implied
  /-- By a dotted key. -/
  | dotted
  /-- In one piece, as a value. -/
  | inlined
  deriving Repr, DecidableEq

/-- A value. -/
inductive Value where
  | text (s : String)
  | integer (n : Int)
  | real (x : RealNumber)
  | flag (b : Bool)
  | moment (m : Moment)
  | array (items : List Value)
  | table (origin : Origin) (fields : List (String × Value))
  /-- An array of tables that have headers. -/
  | tables (items : List (List (String × Value)))
  deriving Repr

/-- The fields of a table. -/
abbrev Fields := List (String × Value)

/-- Fields with one of them changed, or added when it is not there. The change may be refused. -/
def update (key : String) (change : Option Value → Option Value) : Fields → Option Fields
  | [] => (change none).map fun value => [(key, value)]
  | (name, value) :: fields =>
    if name = key then (change (some value)).map fun value => (name, value) :: fields
    else (update key change fields).map ((name, value) :: ·)

/-- A list with its last element changed. -/
def updateLast (change : α → Option α) : List α → Option (List α)
  | [] => none
  | [x] => (change x).map ([·])
  | x :: xs => (updateLast change xs).map (x :: ·)

/-- A change to the table that a header names. Tables on the way are made where they are missing,
and of an array of tables the last one is meant. -/
def withTable (change : Fields → Option Fields) : (path : List String) → Fields → Option Fields
  | [], fields => change fields
  | key :: path, fields =>
    update key (fun
      | none => (withTable change path []).map (.table .implied)
      | some (.table origin inner) =>
        if origin = .inlined then none
        else (withTable change path inner).map (.table origin)
      | some (.tables items) => (updateLast (withTable change path) items).map .tables
      | some _ => none) fields

/-- A new table with a header; a table that was only implied takes the header. -/
def openTable (key : String) : Fields → Option Fields :=
  update key fun
    | none => some (.table .header [])
    | some (.table .implied inner) => some (.table .header inner)
    | some _ => none

/-- A new table at the end of an array of tables. -/
def openElement (key : String) : Fields → Option Fields :=
  update key fun
    | none => some (.tables [[]])
    | some (.tables items) => some (.tables (items ++ [[]]))
    | some _ => none

/-- A new field; there must be none of its name. -/
def insertNew (key : String) (value : Value) : Fields → Option Fields :=
  update key fun
    | none => some value
    | some _ => none

/-- A new field under a dotted key, `path` being the key without its last part. -/
def insertDotted (key : String) (value : Value) : (path : List String) → Fields → Option Fields
  | [], fields => insertNew key value fields
  | step :: path, fields =>
    update step (fun
      | none => (insertDotted key value path []).map (.table .dotted)
      | some (.table .dotted inner) => (insertDotted key value path inner).map (.table .dotted)
      | some (.table .implied inner) =>
        if path.isEmpty then none
        else (insertDotted key value path inner).map (.table .implied)
      | some (.tables items) =>
        if path.isEmpty then none
        else (updateLast (insertDotted key value path) items).map .tables
      | some _ => none) fields

end SqlReview.Toml

import SqlReview.Query.Metrics
import SqlReview.Settings.Basic
import SqlReview.Toml.Document

/-!
# Data that settings and metrics are read from

A tree of data as formats deliver it, and what settings and metrics look like in such a tree.
Either is a table whose fields have names, or a list of the same fields in their order. Fields
that are not known count for nothing; a field of the wrong kind is refused.
-/

namespace SqlReview

open SqlReview.Query

/-- A tree of data. An integer is written without a point and without an exponent. -/
inductive Data where
  | nothing
  | flag (b : Bool)
  | integer (n : Int)
  | real
  | text (s : String)
  | list (items : List Data)
  | table (fields : List (String × Data))
  deriving Repr

namespace Data

/-- A text. -/
def text? : Data → Option String
  | .text s => some s
  | _ => none

/-- A flag. -/
def flag? : Data → Option Bool
  | .flag b => some b
  | _ => none

/-- A count of up to 64 bits. -/
def count? : Data → Option Nat
  | .integer n => if 0 ≤ n ∧ n < Int.pow 2 64 then some n.toNat else none
  | _ => none

/-- A list of texts. -/
def texts? : Data → Option (List String)
  | .list items => items.mapM text?
  | _ => none

/-- Texts by name. -/
def textsByName? : Data → Option (Std.ExtTreeMap String String)
  | .table fields =>
    fields.foldlM (fun map (name, value) => (text? value).map (map.insert name)) {}
  | _ => none

/-- The field of a name. -/
def field? (name : String) (fields : List (String × Data)) : Option Data :=
  (fields.find? (·.1 == name)).map (·.2)

/-- The name of the one field of a date or a time, which is a table to those who expect one. -/
def momentField : String := "$__toml_private_datetime"

/-- An integer of up to 128 bits. -/
def ofInteger? (n : Int) : Option Data :=
  if -(Int.pow 2 127) ≤ n ∧ n < Int.pow 2 128 then some (.integer n) else none

/-- A real number in the range of 64 bits. -/
def ofReal? : Toml.RealNumber → Option Data
  | .named => some .real
  | .decimal d => if d.isFinite then some .real else none

mutual

/-- The data that a value of a TOML document is; there is none for a number beyond all range. -/
def ofToml? : Toml.Value → Option Data
  | .text s => some (.text s)
  | .integer n => ofInteger? n
  | .real x => ofReal? x
  | .flag b => some (.flag b)
  | .moment m => some (.table [(momentField, .text (String.ofList m.text))])
  | .array items => (ofTomlItems? items).map .list
  | .table _ fields => (ofTomlFields? fields).map .table
  | .tables items => (ofTomlTables? items).map .list

/-- The data that the items of an array are. -/
def ofTomlItems? : List Toml.Value → Option (List Data)
  | [] => some []
  | item :: items => do some ((← ofToml? item) :: (← ofTomlItems? items))

/-- The data that the fields of a table are. -/
def ofTomlFields? : List (String × Toml.Value) → Option (List (String × Data))
  | [] => some []
  | (name, value) :: fields => do some ((name, ← ofToml? value) :: (← ofTomlFields? fields))

/-- The data that the tables of an array of tables are. -/
def ofTomlTables? : List (List (String × Toml.Value)) → Option (List Data)
  | [] => some []
  | fields :: items => do some (.table (← ofTomlFields? fields) :: (← ofTomlTables? items))

end

end Data

namespace Settings

/-- Settings with the given fields, of which any may be missing. -/
def ofFields? (disabled tiers : Option Data) : Option Settings := do
  let disabled ← disabled.elim (some []) Data.texts?
  let tiers ← tiers.elim (some {}) Data.textsByName?
  some { disabled, tiers }

/-- The settings that some data is. A list holds nothing after its two fields. -/
def ofData? : Data → Option Settings
  | .table fields => ofFields? (Data.field? "disabled" fields) (Data.field? "severity" fields)
  | .list items => if items.length > 2 then none else ofFields? items[0]? items[1]?
  | _ => none

/-- The settings that a value of a document is. Of an array only the two fields are read, and what
follows them counts for nothing. -/
def ofValue? : Toml.Value → Option Settings
  | .array items => (Data.ofTomlItems? (items.take 2)).bind fun items => ofData? (.list items)
  | value => (Data.ofToml? value).bind ofData?

/-- The settings in a document, under the name `rules`. What stands under other names counts for
nothing, but has to be data. -/
def ofDocument? (root : Toml.Fields) : Option Settings := do
  let _ ← Data.ofTomlFields? (root.filter (·.1 != "rules"))
  match root.find? (·.1 == "rules") with
  | some (_, value) => ofValue? value
  | none => some {}

/-- The settings in a TOML text. -/
def ofToml? (text : String) : Option Settings :=
  (Toml.parse? text).bind ofDocument?

end Settings

/-- The metrics that some data is, with all of its fields. -/
def metricsOfData? (data : Data) : Option Metrics := do
  let names := ["tableCount", "joinCount", "subqueryDepth", "aggregationCount", "hasDistinct",
    "hasGroupBy", "hasOrderBy", "hasLimit", "hasPrewhere", "hasWhere", "isSelectStar",
    "columnCount"]
  let fields ← match data with
    | .table fields => names.mapM (Data.field? · fields)
    | .list items => some items
    | _ => none
  match fields with
  | [tables, joins, depth, calls, distinct, groupBy, orderBy, limit, prewhere, where_, star,
      columns] =>
    some {
      tableCount := ← tables.count?
      joinCount := ← joins.count?
      subqueryDepth := ← depth.count?
      aggregationCount := ← calls.count?
      hasDistinct := ← distinct.flag?
      hasGroupBy := ← groupBy.flag?
      hasOrderBy := ← orderBy.flag?
      hasLimit := ← limit.flag?
      hasPrewhere := ← prewhere.flag?
      hasWhere := ← where_.flag?
      isSelectStar := ← star.flag?
      columnCount := ← columns.count? }
  | _ => none

end SqlReview

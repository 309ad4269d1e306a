import SqlReview.Toml.Table

/-!
# TOML documents

A document is a sequence of statements: headers, and fields of the table that the last header
names. Reading one either gives the fields of its root or refuses.
-/

namespace SqlReview.Toml

/-- A number, a date, a time or a flag. -/
def bare : Reader Value := do
  let word ← bareValue
  if word == "true".toList then pure (.flag true)
  else if word == "false".toList then pure (.flag false)
  else
    ((integer? word).map .integer).or (((real? word).map .real).or
      ((Moment.ofText? word).map .moment))

/-- Blanks, comments and line feeds. -/
def anyLayout : Reader Unit := fun s => layout s.length s

mutual

/-- A value in a text of less than the given length, with at most `depth` arrays and inline tables
in each other. -/
def value : (length depth : Nat) → Reader Value
  | 0, _ => failure
  | length + 1, depth => do
    match ← peek? with
    | some '\x22' => return .text (← string '\x22')
    | some '\x27' => return .text (← string '\x27')
    | some '[' =>
      guard (depth ≠ 0)
      literally ['[']
      return .array (← items length (depth - 1))
    | some '\x7b' =>
      guard (depth ≠ 0)
      literally ['\x7b']
      return .table .inlined (← inlineFields length (depth - 1) [])
    | _ => bare

/-- The items of an array and its closing bracket. -/
def items : (length depth : Nat) → Reader (List Value)
  | 0, _ => failure
  | length + 1, depth => do
    anyLayout
    if ← literally? [']'] then return []
    let item ← value length depth
    anyLayout
    if ← literally? [','] then return item :: (← items length depth)
    literally [']']
    return [item]

/-- The fields of an inline table and its closing brace, after those read already. Between the
symbols there may be line feeds and comments, but none in a key. -/
def inlineFields : (length depth : Nat) → Fields → Reader Fields
  | 0, _, _ => failure
  | length + 1, depth, fields => do
    anyLayout
    if ← literally? ['\x7d'] then return fields
    let (path, last) ← key
    anyLayout
    literally ['=']
    anyLayout
    let v ← value length depth
    let fields ← insertDotted last v path fields
    anyLayout
    if ← literally? [','] then inlineFields length depth fields
    else
      literally ['\x7d']
      return fields

end

/-- A statement of a document. -/
inductive Statement where
  | tableHeader (path : List String) (last : String)
  | elementHeader (path : List String) (last : String)
  | field (path : List String) (last : String) (value : Value)
  deriving Repr

/-- A statement and the end of its line. -/
def statement : Reader Statement := do
  if ← literally? ['[', '['] then
    let (path, last) ← headerKey
    literally [']', ']']
    lineEnd
    return .elementHeader path last
  else if ← literally? ['['] then
    let (path, last) ← headerKey
    literally [']']
    lineEnd
    return .tableHeader path last
  else
    let (path, last) ← key
    blanks
    literally ['=']
    blanks
    let v ← fun s => value (s.length + 1) depthLimit s
    lineEnd
    return .field path last v
where
  /-- A key between brackets. -/
  headerKey : Reader (List String × String) := do
    blanks
    let name ← key
    blanks
    return name

/-- The statements of a text of at most the given length. -/
def statements : (length : Nat) → List Char → Option (List Statement)
  | 0, s => if s.isEmpty then some [] else none
  | length + 1, s => do
    let ((), s) ← anyLayout s
    if s.isEmpty then some []
    else
      let (first, s) ← statement s
      (statements length s).map (first :: ·)

/-- The root of a document and the path of the table that fields are added to. -/
structure State where
  root : Fields := []
  current : List String := []
  deriving Repr

/-- The state after a statement. -/
def State.after (state : State) : Statement → Option State
  | .tableHeader path last =>
    (withTable (openTable last) path state.root).map fun root =>
      { root, current := path ++ [last] }
  | .elementHeader path last =>
    (withTable (openElement last) path state.root).map fun root =>
      { root, current := path ++ [last] }
  | .field path last v =>
    (withTable (insertDotted last v path) state.current state.root).map fun root =>
      { state with root }

/-- The root of the document that a text is. A byte order mark at the start counts for nothing. -/
def parse? (text : String) : Option Fields :=
  let s := text.toList
  let s := if s.head? = some '\uFEFF' then s.tail else s
  ((statements (s.length + 1) s).bind fun all =>
    all.foldlM State.after {}).map State.root

end SqlReview.Toml

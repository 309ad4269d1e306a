import SqlReview.Report.Document

/-!
# JSON

Documents as JSON with one item or field to a line, indented by two spaces. A list without items
and a record without fields are written in one piece. Texts escape the quotation mark, the
backslash and the controls below the space, and nothing else.
-/

namespace SqlReview.Report.Json

/-- The digit of a number below 16, in lower case. -/
def hexDigit (n : Nat) : Char :=
  if n < 10 then Char.ofNat (0x30 + n) else Char.ofNat (0x57 + n)

/-- A character as it is written in a text. -/
def escape (c : Char) : List Char :=
  if c = '\x22' then ['\\', '\x22']
  else if c = '\\' then ['\\', '\\']
  else if c = '\x08' then ['\\', 'b']
  else if c = '\x0C' then ['\\', 'f']
  else if c = '\n' then ['\\', 'n']
  else if c = '\r' then ['\\', 'r']
  else if c = '\t' then ['\\', 't']
  else if c.toNat < 0x20 then
    ['\\', 'u', '0', '0', hexDigit (c.toNat / 16), hexDigit (c.toNat % 16)]
  else [c]

/-- A text between quotation marks. -/
def quote (s : String) : String :=
  "\"" ++ String.ofList (s.toList.flatMap escape) ++ "\""

/-- A line break and the indentation of a level. -/
def newline (level : Nat) : String :=
  "\n" ++ "".pushn ' ' (2 * level)

/-- The parts of a list or record between its brackets, each on a line of its own. -/
def bracket (opening closing : String) (level : Nat) (parts : List String) : String :=
  if parts.isEmpty then opening ++ closing
  else opening ++ newline (level + 1) ++ String.intercalate ("," ++ newline (level + 1)) parts ++
    newline level ++ closing

mutual

/-- A document whose first line is indented already, at the given level. -/
def print (level : Nat) : Document → String
  | .text s => quote s
  | .number n => toString n
  | .flag b => if b then "true" else "false"
  | .list items => bracket "[" "]" level (printItems (level + 1) items)
  | .record fields => bracket "\x7b" "\x7d" level (printFields (level + 1) fields)

/-- The items of a list. -/
def printItems (level : Nat) : List Document → List String
  | [] => []
  | item :: items => print level item :: printItems level items

/-- The fields of a record, each with its name. -/
def printFields (level : Nat) : List (String × Document) → List String
  | [] => []
  | (name, value) :: fields => (quote name ++ ": " ++ print level value) :: printFields level fields

end

end SqlReview.Report.Json

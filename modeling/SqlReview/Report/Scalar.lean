import SqlReview.Text.Decimal

/-!
# Texts in YAML

A text in a YAML document is written plain when it reads back as that text. One that reads back
as something else, or that begins or goes on like a piece of syntax, is put in single quotation
marks; one with line feeds becomes a literal block; and one with special characters, or with
blanks that a block would lose, is put in double quotation marks.
-/

namespace SqlReview.Report.Scalar

open SqlReview.Text

/-- A character that only a text in double quotation marks can hold. -/
def isSpecial (c : Char) : Bool :=
  let n := c.toNat
  !(c == '\n' || (0x20 ≤ n && n ≤ 0x7E) || (0xA0 ≤ n && n != 0xFEFF))

/-- A character that ends a line. -/
def isBreak (c : Char) : Bool :=
  let n := c.toNat
  c == '\n' || c == '\r' || n == 0x85 || n == 0x2028 || n == 0x2029

/-- A space, a tab or the end of a line. -/
def isGap (c : Char) : Bool :=
  c == ' ' || c == '\t' || c == '\x00' || isBreak c

/-- Whether two characters in a row satisfy a relation somewhere in a text. -/
def hasPair (r : Char → Char → Bool) : List Char → Bool
  | a :: b :: s => r a b || hasPair r (b :: s)
  | _ => false

/-- Whether a text has a space right before the end of a line. -/
def hasSpaceBreak : List Char → Bool :=
  hasPair fun a b => a == ' ' && isBreak b

/-- Whether a text has a space right after the end of a line. -/
def hasBreakSpace : List Char → Bool :=
  hasPair fun a b => isBreak a && b == ' '

/-- Whether a text consists of a digit zero and further digits, a sign aside. -/
def hasLeadingZeros (s : List Char) : Bool :=
  let s := match s with
    | '+' :: s => s
    | '-' :: s => s
    | s => s
  match s with
  | '0' :: d :: s => (d :: s).all Char.isDigit
  | _ => false

/-- The digits of an integer and their base; without a prefix the base is ten. -/
def digitsAndBase (s : List Char) : Nat × List Char :=
  match s with
  | '0' :: 'x' :: s => (16, s)
  | '0' :: 'o' :: s => (8, s)
  | '0' :: 'b' :: s => (2, s)
  | s => (10, s)

/-- Whether a text is read as an integer of up to 128 bits. -/
def isInteger (s : List Char) : Bool :=
  let (negative, unsigned) := match s with
    | '-' :: s => (true, s)
    | '+' :: s => (false, s)
    | s => (false, s)
  let (base, digits) := digitsAndBase unsigned
  match natOfDigits? base digits with
  | none => false
  | some n => n < Nat.pow 2 128 && (!negative || n ≤ Nat.pow 2 127)

/-- Whether a text is read as a number that is no integer. -/
def isReal (s : List Char) : Bool :=
  let text := String.ofList s
  [".inf", ".Inf", ".INF", "+.inf", "+.Inf", "+.INF", "-.inf", "-.Inf", "-.INF",
    ".nan", ".NaN", ".NAN"].contains text ||
  let unsigned := match s with
    | '-' :: s => s
    | '+' :: s => s
    | s => s
  (Decimal.ofText? unsigned).any Decimal.isFinite

/-- Whether a plain text is read as something else than a text. -/
def isAmbiguous (s : List Char) : Bool :=
  ["", "~", "null", "Null", "NULL", "true", "True", "TRUE", "false", "False",
    "FALSE"].contains (String.ofList s) ||
  hasLeadingZeros s || isInteger s || isReal s

/-- Whether a text begins like a piece of syntax. -/
def beginsLikeSyntax (s : List Char) : Bool :=
  match s with
  | [] => false
  | c :: rest =>
    ("#,[]\x7b\x7d&*!|>\x27\x22%@\x60").contains c ||
      ((c == '?' || c == ':' || c == '-') && rest.head?.all isGap) ||
      "---".toList.isPrefixOf s || "...".toList.isPrefixOf s

/-- Whether a text goes on like a piece of syntax: with a colon before a gap or the end, or with
a gap before a number sign. -/
def holdsSyntax (s : List Char) : Bool :=
  hasPair (fun a b => (a == ':' && isGap b) || (isGap a && b == '#')) s ||
    s.getLast? == some ':'

/-- Whether a text can be written plain. -/
def isPlain (s : List Char) : Bool :=
  !(beginsLikeSyntax s || holdsSyntax s || s.any isBreak || s.any isSpecial ||
    s.head? == some ' ' || s.getLast? == some ' ')

/-- A digit of a number in base 16, in upper case. -/
def hexDigit (n : Nat) : Char :=
  if n < 10 then Char.ofNat (0x30 + n) else Char.ofNat (0x37 + n)

/-- The last digits of a number in base 16. -/
def hexDigits : (count n : Nat) → List Char
  | 0, _ => []
  | count + 1, n => hexDigits count (n / 16) ++ [hexDigit (n % 16)]

/-- The letter that stands for a character after a backslash. -/
def escapeLetter? (c : Char) : Option Char :=
  match c.toNat with
  | 0x00 => some '0'
  | 0x07 => some 'a'
  | 0x08 => some 'b'
  | 0x09 => some 't'
  | 0x0A => some 'n'
  | 0x0B => some 'v'
  | 0x0C => some 'f'
  | 0x0D => some 'r'
  | 0x1B => some 'e'
  | 0x22 => some '\x22'
  | 0x5C => some '\\'
  | 0x85 => some 'N'
  | 0xA0 => some '_'
  | 0x2028 => some 'L'
  | 0x2029 => some 'P'
  | _ => none

/-- A character between double quotation marks. -/
def escape (c : Char) : List Char :=
  if isSpecial c || isBreak c || c == '\x22' || c == '\\' then
    match escapeLetter? c with
    | some letter => ['\\', letter]
    | none =>
      let n := c.toNat
      if n < 0x100 then '\\' :: 'x' :: hexDigits 2 n
      else if n < 0x10000 then '\\' :: 'u' :: hexDigits 4 n
      else '\\' :: 'U' :: hexDigits 8 n
  else [c]

/-- Spaces up to a column. -/
def indentation (column : Nat) : List Char :=
  List.replicate column ' '

/-- The characters of a text, with an indentation in front of what follows the end of a line.
`fresh` says that a line has ended right before. -/
def indentLines (column : Nat) (write : Char → List Char) (fresh : Bool) : List Char → List Char
  | [] => []
  | c :: s =>
    if isBreak c then c :: indentLines column write true s
    else (if fresh then indentation column else []) ++ write c ++
      indentLines column write false s

/-- A text between double quotation marks. -/
def doubleQuoted (s : List Char) : List Char :=
  ['\x22'] ++ s.flatMap escape ++ ['\x22']

/-- A text between single quotation marks; one that it holds is written twice. -/
def singleQuoted (column : Nat) (s : List Char) : List Char :=
  let write := fun c => if c == '\x27' then ['\x27', '\x27'] else [c]
  ['\x27'] ++ indentLines column write false s ++
    (if s.getLast?.any isBreak then indentation column else []) ++ ['\x27']

/-- How a literal block ends: whether the text ends in no line feed, in one or in more. -/
def chomping (s : List Char) : List Char :=
  match s.reverse with
  | a :: b :: _ => if !isBreak a then ['-'] else if isBreak b then ['+'] else []
  | [a] => if isBreak a then ['+'] else ['-']
  | [] => ['-']

/-- A text as a literal block. Where it begins with a space or a line feed, the indentation is
given in figures. -/
def literalBlock (column : Nat) (s : List Char) : List Char :=
  let hint := if s.head?.any fun c => c == ' ' || isBreak c then ['2'] else []
  ['|'] ++ hint ++ chomping s ++ ['\n'] ++ indentLines column (fun c => [c]) true s

/-- A text as a YAML document holds it, its further lines beginning at the given column. -/
def print (column : Nat) (s : List Char) : List Char :=
  let spaced := hasSpaceBreak s
  let special := s.any isSpecial
  if s.contains '\n' then
    if spaced || special || s.getLast? == some ' ' then doubleQuoted s else literalBlock column s
  else if !isAmbiguous s && isPlain s then s
  else if spaced || special || hasBreakSpace s then doubleQuoted s
  else singleQuoted column s

end SqlReview.Report.Scalar

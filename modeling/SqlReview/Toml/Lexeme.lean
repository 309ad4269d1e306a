import SqlReview.Toml.Moment

/-!
# TOML lexemes

The parts of a TOML document that have no parts of their own: blanks, comments, keys, strings and
numbers, and where a date with a time of day ends.
-/

namespace SqlReview.Toml

open SqlReview.Text

/-- Spaces and tabs. -/
def blanks : Reader Unit := do
  let _ ← takeWhile fun c => c == ' ' || c == '\t'

/-- A line feed, with or without a carriage return before it. -/
def newline? : Reader Bool := do
  if ← literally? ['\n'] then pure true else literally? ['\r', '\n']

/-- A control character, the tab apart. -/
def isControl (c : Char) : Bool :=
  (c.toNat < 0x20 && c != '\t') || c.toNat == 0x7F

/-- A comment up to the end of its line, if one begins here. -/
def comment : Reader Unit := do
  if ← literally? ['#'] then
    let _ ← takeWhile fun c => !isControl c
    match ← peek? with
    | none | some '\n' | some '\r' => pure ()
    | some _ => failure
  else pure ()

/-- The end of a line or of the document, after blanks and a comment. -/
def lineEnd : Reader Unit := do
  blanks
  comment
  if ← newline? then pure ()
  else if (← peek?).isNone then pure ()
  else failure

/-- Blanks, comments and line feeds in a text of at most the given length. -/
def layout : (length : Nat) → Reader Unit
  | 0 => blanks
  | length + 1 => do
    blanks
    comment
    if ← newline? then layout length else pure ()

/-- The character with a number; surrogates and numbers beyond the last character have none. -/
def charOf? (n : Nat) : Option Char :=
  if h : n.isValidChar then some (Char.ofNatAux n h) else none

/-- The character that the given number of digits in base 16 write. -/
def codePoint (digits : Nat) (s : List Char) : Option (Char × List Char) :=
  let figures := s.take digits
  if figures.length < digits then none
  else ((natOfDigits? 16 figures).bind charOf?).map (·, s.drop digits)

/-- The character that stands for what follows a backslash. -/
def escaped : (s : List Char) → Option (Char × List Char)
  | 'b' :: s => some ('\x08', s)
  | 't' :: s => some ('\t', s)
  | 'n' :: s => some ('\n', s)
  | 'f' :: s => some ('\x0C', s)
  | 'r' :: s => some ('\r', s)
  | '\x22' :: s => some ('\x22', s)
  | '\\' :: s => some ('\\', s)
  | 'e' :: s => some ('\x1B', s)
  | 'x' :: s => codePoint 2 s
  | 'u' :: s => codePoint 4 s
  | 'U' :: s => codePoint 8 s
  | _ => none

/-- What follows a backslash at the end of a line: a line feed after blanks, and then all blanks
and line feeds. -/
def joinedLine? (s : List Char) : Option (List Char) :=
  let isSpace := fun c => c == ' ' || c == '\t'
  match s.dropWhile isSpace with
  | '\n' :: rest => some (dropLayout rest)
  | '\r' :: '\n' :: rest => some (dropLayout rest)
  | _ => none
where
  /-- A text without the blanks and line feeds it begins with. -/
  dropLayout : List Char → List Char
    | '\r' :: '\n' :: s => dropLayout s
    | c :: s => if c == ' ' || c == '\t' || c == '\n' then dropLayout s else c :: s
    | [] => []

/-- The contents of a string, and what follows its closing mark. `multiline` strings may hold line
feeds and end with three marks; `escapes` says whether a backslash has a meaning. The text is at
most of the given length. -/
def contents (mark : Char) (multiline escapes : Bool) :
    (length : Nat) → List Char → Option (List Char × List Char)
  | 0, _ => none
  | _ + 1, [] => none
  | length + 1, c :: s =>
    let continued := fun (taken rest : List Char) =>
      (contents mark multiline escapes length rest).map fun (text, rest) => (taken ++ text, rest)
    if c = mark then
      if !multiline then some ([], s)
      else
        let marks := (c :: s).takeWhile (· == mark)
        if marks.length < 3 then continued [c] s
        else
          let inside := min (marks.length - 3) 2
          some (List.replicate inside mark, (c :: s).drop (inside + 3))
    else if c = '\\' ∧ escapes then
      match (if multiline then joinedLine? s else none) with
      | some rest => continued [] rest
      | none => (escaped s).bind fun (c, rest) => continued [c] rest
    else if c = '\n' then if multiline then continued [c] s else none
    else if c = '\r' ∧ s.head? = some '\n' then if multiline then continued [c] s else none
    else if isControl c then none
    else continued [c] s

/-- A string. Right after the three marks that open a string of several lines a line feed counts
for nothing. -/
def string (mark : Char) : Reader String := do
  let escapes := mark == '\x22'
  if ← literally? [mark, mark, mark] then
    let _ ← newline?
    fun s => (contents mark true escapes (s.length + 1) s).map fun (text, rest) =>
      (String.ofList text, rest)
  else
    literally [mark]
    fun s => (contents mark false escapes (s.length + 1) s).map fun (text, rest) =>
      (String.ofList text, rest)

/-- A character of a key without marks. -/
def isBareKey (c : Char) : Bool :=
  c.isAlphanum || c == '_' || c == '-'

/-- One part of a key. -/
def keyPart : Reader String := do
  match ← peek? with
  | some '\x22' => fun s =>
    if ['\x22', '\x22', '\x22'].isPrefixOf s then none else string '\x22' s
  | some '\x27' => fun s =>
    if ['\x27', '\x27', '\x27'].isPrefixOf s then none else string '\x27' s
  | _ =>
    let name ← takeWhile isBareKey
    if name.isEmpty then failure else pure (String.ofList name)

/-- The parts of a key that follow its first part, in a text of at most the given length. -/
def keyParts : (length : Nat) → Reader (List String)
  | 0 => failure
  | length + 1 => fun s =>
    match (do blanks; literally ['.']; blanks; keyPart : Reader String) s with
    | none => if dotFollows s then none else some ([], s)
    | some (part, rest) => (keyParts length rest).map fun (parts, rest) => (part :: parts, rest)
where
  /-- Whether a period follows, blanks aside. -/
  dotFollows (s : List Char) : Bool :=
    (s.dropWhile fun c => c == ' ' || c == '\t').head? == some '.'

/-- How many arrays and inline tables may stand in each other, and how many parts a key may have
at most. -/
def depthLimit : Nat := 80

/-- A key: the parts before the last one, and the last one. -/
def key : Reader (List String × String) := do
  let first ← keyPart
  let parts ← fun s => keyParts (s.length + 1) s
  guard (parts.length < depthLimit)
  match parts.reverse with
  | [] => pure ([], first)
  | last :: between => pure (first :: between.reverse, last)

/-- Digits without the underscores between them; every underscore stands between two digits. -/
def joinDigits? (isDigit : Char → Bool) : List Char → Option (List Char)
  | [] => none
  | [c] => if isDigit c then some [c] else none
  | c :: '_' :: s => if isDigit c then (joinDigits? isDigit s).map (c :: ·) else none
  | c :: s => if isDigit c then (joinDigits? isDigit s).map (c :: ·) else none

/-- The digits of a number in base ten, which has no zero in front. -/
def wholePart? (s : List Char) : Option (List Char) :=
  match joinDigits? Char.isDigit s with
  | some ['0'] => some ['0']
  | some ('0' :: _) => none
  | digits => digits

/-- A text without its sign, and whether the sign is a minus. -/
def splitSign (s : List Char) : Bool × List Char :=
  match s with
  | '-' :: s => (true, s)
  | '+' :: s => (false, s)
  | s => (false, s)

/-- The integer that a text writes. -/
def integer? (s : List Char) : Option Int :=
  let digit := fun base c => (digitValue? c).any (· < base)
  let based := fun base s =>
    ((joinDigits? (digit base) s).bind (natOfDigits? base)).map Int.ofNat
  match s with
  | '0' :: 'x' :: s => based 16 s
  | '0' :: 'o' :: s => based 8 s
  | '0' :: 'b' :: s => based 2 s
  | s =>
    let (negative, s) := splitSign s
    ((wholePart? s).bind (natOfDigits? 10)).map fun n =>
      if negative then -Int.ofNat n else Int.ofNat n

/-- A real number, its sign left out: infinity and what is no number by name, or else in figures. -/
inductive RealNumber where
  | named
  | decimal (d : Decimal)
  deriving Repr, DecidableEq

/-- The real number that a text writes with a point, with an exponent or by name. -/
def real? (s : List Char) : Option RealNumber :=
  let (_, s) := splitSign s
  if s == "inf".toList || s == "nan".toList then some .named
  else
    let isMark := fun c => c == 'e' || c == 'E'
    let mantissa := s.takeWhile (!isMark ·)
    let exponent := (s.dropWhile (!isMark ·)).tail
    let whole := mantissa.takeWhile (· != '.')
    let fraction := (mantissa.dropWhile (· != '.')).tail
    let hasExponent := s.any isMark
    let hasPoint := mantissa.contains '.'
    let (negative, figures) := splitSign exponent
    if !(hasPoint || hasExponent) then none
    else do
      let whole ← wholePart? whole
      let fraction ← if hasPoint then joinDigits? Char.isDigit fraction else some []
      let figures ← if hasExponent then joinDigits? Char.isDigit figures else some ['0']
      let digits ← natOfDigits? 10 (whole ++ fraction)
      let exponent ← natOfDigits? 10 figures
      let signed := if negative then -Int.ofNat exponent else Int.ofNat exponent
      some (.decimal ⟨digits, signed - fraction.length⟩)

/-- A character of a number, a date or a name of a value. -/
def isBareValue (c : Char) : Bool :=
  c.isAlphanum || c == '+' || c == '-' || c == '.' || c == '_' || c == ':'

/-- A number, a date or a name of a value, up to the first character that belongs to none. A space
belongs to it between a date and a time of day. -/
def bareValue : Reader (List Char) := fun s =>
  let word := s.takeWhile isBareValue
  let rest := s.dropWhile isBareValue
  match rest with
  | ' ' :: c :: more =>
    if isDate word && c.isDigit then
      some (word ++ ' ' :: (c :: more).takeWhile isBareValue, (c :: more).dropWhile isBareValue)
    else some (word, rest)
  | _ => some (word, rest)

end SqlReview.Toml

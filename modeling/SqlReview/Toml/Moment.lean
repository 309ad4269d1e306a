import SqlReview.Text.Decimal
import SqlReview.Toml.Reader

/-!
# Dates and times

A moment is a day, a time of day, or both, and both may come with the offset from universal time.
It is read in several spellings and written in one: with a `T` between day and time and a `Z` for
universal time, with its seconds, and with up to nine digits of their fraction, of which zeros at
the end are left out.
-/

namespace SqlReview.Toml

open SqlReview.Text

/-- A day. -/
structure Date where
  year : Nat
  month : Nat
  day : Nat
  deriving Repr, DecidableEq

/-- A time of day. A minute may have a second 60. -/
structure Time where
  hour : Nat
  minute : Nat
  second : Nat := 0
  nanosecond : Nat := 0
  deriving Repr, DecidableEq

/-- Universal time, or how many minutes a local time is ahead of it. -/
inductive Offset where
  | universal
  | ahead (minutes : Int)
  deriving Repr, DecidableEq

/-- A date, a time of day, or both. -/
inductive Moment where
  | date (d : Date)
  | time (t : Time)
  | dateTime (d : Date) (t : Time) (offset : Option Offset)
  deriving Repr, DecidableEq

/-- The number of days of a month. -/
def daysOfMonth (year month : Nat) : Nat :=
  if month = 2 then
    if year % 4 = 0 ∧ (year % 100 ≠ 0 ∨ year % 400 = 0) then 29 else 28
  else if month = 4 ∨ month = 6 ∨ month = 9 ∨ month = 11 then 30 else 31

/-- Whether a day is one of the calendar. -/
def Date.isValid (d : Date) : Bool :=
  1 ≤ d.month && d.month ≤ 12 && 1 ≤ d.day && d.day ≤ daysOfMonth d.year d.month

/-- Whether a time is one of the clock. -/
def Time.isValid (t : Time) : Bool :=
  t.hour ≤ 23 && t.minute ≤ 59 && t.second ≤ 60

/-! ## Reading -/

/-- The number that exactly the given number of digits write. -/
def figures (count : Nat) : Reader Nat := fun s =>
  let digits := s.take count
  if digits.length = count ∧ digits.all Char.isDigit then
    (natOfDigits? 10 digits).map (·, s.drop count)
  else none

/-- A day: year, month and day of the month with hyphens between them. -/
def date : Reader Date := do
  let year ← figures 4
  literally ['-']
  let month ← figures 2
  literally ['-']
  let day ← figures 2
  let d : Date := { year, month, day }
  if d.isValid then return d else failure

/-- The nanoseconds of a fraction of a second. Digits after the ninth count for nothing. -/
def nanoseconds (digits : List Char) : Option Nat :=
  natOfDigits? 10 ((digits ++ List.replicate 9 '0').take 9)

/-- A fraction of a second, if one follows. -/
def fraction : Reader Nat := do
  if ← literally? ['.'] then
    let digits ← takeWhile Char.isDigit
    if digits.isEmpty then failure else nanoseconds digits
  else return 0

/-- A time of day: hour, minute and second with colons between them. The second may be left out. -/
def time : Reader Time := do
  let hour ← figures 2
  literally [':']
  let minute ← figures 2
  let t : Time ←
    if ← literally? [':'] then
      let second ← figures 2
      let nanosecond ← fraction
      pure { hour, minute, second, nanosecond }
    else pure { hour, minute }
  if t.isValid then return t else failure

/-- The offset of a local time: hours and minutes after a sign. -/
def ahead (sign : Int) : Reader Offset := do
  let hours ← figures 2
  literally [':']
  let minutes ← figures 2
  if hours ≤ 23 ∧ minutes ≤ 59 then return .ahead (sign * Int.ofNat (60 * hours + minutes))
  else failure

/-- The offset from universal time, if one follows. -/
def offset? : Reader (Option Offset) := do
  if (← literally? ['Z']) then return some .universal
  else if (← literally? ['z']) then return some .universal
  else if (← literally? ['+']) then return some (← ahead 1)
  else if (← literally? ['-']) then return some (← ahead (-1))
  else return none

/-- What stands between a day and a time of day. -/
def separator : Reader Unit :=
  literally ['T'] <|> literally ['t'] <|> literally [' ']

/-- A day, and a time of day where one follows. -/
def dateMoment : Reader Moment := do
  let d ← date
  if (← peek?).isNone then return .date d
  separator
  let t ← time
  return .dateTime d t (← offset?)

/-- The moment that a text writes. -/
def Moment.ofText? (s : List Char) : Option Moment :=
  ((dateMoment <|> (Moment.time <$> SqlReview.Toml.time) : Reader Moment) s).bind fun (m, rest) =>
    if rest.isEmpty then some m else none

/-- Whether a text writes a day. -/
def isDate (s : List Char) : Bool :=
  (date s).any (·.2.isEmpty)

/-! ## Writing -/

/-- The last digits of a number. -/
def lastDigits : (count n : Nat) → List Char
  | 0, _ => []
  | count + 1, n => lastDigits count (n / 10) ++ [Nat.digitChar (n % 10)]

/-- A day as a text. -/
def Date.text (d : Date) : List Char :=
  lastDigits 4 d.year ++ '-' :: lastDigits 2 d.month ++ '-' :: lastDigits 2 d.day

/-- The fraction of a second as a text. -/
def fractionText (nanosecond : Nat) : List Char :=
  if nanosecond = 0 then []
  else '.' :: ((lastDigits 9 nanosecond).reverse.dropWhile (· == '0')).reverse

/-- A time of day as a text. -/
def Time.text (t : Time) : List Char :=
  lastDigits 2 t.hour ++ ':' :: lastDigits 2 t.minute ++ ':' :: lastDigits 2 t.second ++
    fractionText t.nanosecond

/-- An offset as a text. An offset of no minutes is written with a plus sign. -/
def Offset.text : Offset → List Char
  | .universal => ['Z']
  | .ahead minutes =>
    let n := minutes.natAbs
    (if minutes < 0 then '-' else '+') :: lastDigits 2 (n / 60) ++ ':' :: lastDigits 2 (n % 60)

/-- A moment as a text. -/
def Moment.text : Moment → List Char
  | .date d => d.text
  | .time t => t.text
  | .dateTime d t offset => d.text ++ 'T' :: t.text ++ (offset.map Offset.text).getD []

end SqlReview.Toml

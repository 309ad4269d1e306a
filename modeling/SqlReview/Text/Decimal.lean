/-!
# Decimal numbers

Texts that write a decimal number, with a point or an exponent or neither, and whether such a
number is within the range of the 64-bit binary format: it is when it is nearer to the greatest
number of the format than to the next power of two.
-/

namespace SqlReview.Text

/-- The value of a digit of any base up to 16. -/
def digitValue? (c : Char) : Option Nat :=
  if c.isDigit then some (c.toNat - 0x30)
  else if 'a' ≤ c ∧ c ≤ 'f' then some (c.toNat - 0x57)
  else if 'A' ≤ c ∧ c ≤ 'F' then some (c.toNat - 0x37)
  else none

/-- The number that digits of a base write after a number that is given; there is none when a
character is no digit of the base. -/
def digitsFrom? (base : Nat) (n : Nat) : List Char → Option Nat
  | [] => some n
  | c :: s =>
    match digitValue? c with
    | some d => if d < base then digitsFrom? base (base * n + d) s else none
    | none => none

/-- The number that one or more digits of a base write. -/
def natOfDigits? (base : Nat) (s : List Char) : Option Nat :=
  if s.isEmpty then none else digitsFrom? base 0 s

/-- A decimal number, `digits` times ten to the power of `exponent`. -/
structure Decimal where
  digits : Nat
  exponent : Int
  deriving Repr, DecidableEq

namespace Decimal

/-- An exponent: an optional sign and one or more digits. -/
def exponent? (s : List Char) : Option Int :=
  match s with
  | '+' :: s => (natOfDigits? 10 s).map Int.ofNat
  | '-' :: s => (natOfDigits? 10 s).map fun n => -Int.ofNat n
  | s => (natOfDigits? 10 s).map Int.ofNat

/-- The number that a text without a sign writes. There is a digit before or after the point. -/
def ofText? (s : List Char) : Option Decimal :=
  let whole := s.takeWhile Char.isDigit
  let s := s.dropWhile Char.isDigit
  let fraction := if s.head? == some '.' then s.tail.takeWhile Char.isDigit else []
  let s := if s.head? == some '.' then s.tail.dropWhile Char.isDigit else s
  match natOfDigits? 10 (whole ++ fraction) with
  | none => none
  | some digits =>
    let exponent :=
      match s with
      | [] => some 0
      | 'e' :: s => exponent? s
      | 'E' :: s => exponent? s
      | _ => none
    exponent.map fun e => ⟨digits, e - fraction.length⟩

/-- The least number that rounds to none of the format: half a unit above the greatest. -/
def overflowBound : Nat := Nat.pow 2 1024 - Nat.pow 2 970

/-- Whether a number rounds to a finite number of the 64-bit binary format. Only numbers of about
310 digits are compared digit by digit. -/
def isFinite (d : Decimal) : Bool :=
  let magnitude := (Nat.toDigits 10 d.digits).length + d.exponent
  if d.digits = 0 then true
  else if magnitude > 310 then false
  else if magnitude < 300 then true
  else if d.exponent ≥ 0 then d.digits * Nat.pow 10 d.exponent.toNat < overflowBound
  else d.digits < overflowBound * Nat.pow 10 (-d.exponent).toNat

end Decimal

end SqlReview.Text

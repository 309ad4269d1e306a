/-!
# Blank characters

The characters with the Unicode property White_Space, and the operations that look at nothing
else: trimming, and reading the first word of a text.
-/

namespace SqlReview.Text

/-- White_Space: the ASCII blanks, NEL, the spaces of general category Zs and the two separators. -/
def isBlank (c : Char) : Bool :=
  let n := c.toNat
  (9 ≤ n && n ≤ 13) || n = 0x20 || n = 0x85 || n = 0xA0 || n = 0x1680 ||
    (0x2000 ≤ n && n ≤ 0x200A) || n = 0x2028 || n = 0x2029 || n = 0x202F || n = 0x205F ||
    n = 0x3000

/-- A text without the blanks it begins with. -/
def trimStart (s : List Char) : List Char :=
  s.dropWhile isBlank

/-- A text without the blanks it ends with. -/
def trimEnd (s : List Char) : List Char :=
  (s.reverse.dropWhile isBlank).reverse

/-- A text without the blanks at either end. -/
def trim (s : List Char) : List Char :=
  trimEnd (trimStart s)

/-- Whether a text has no character but blanks. -/
def isBlankText (s : List Char) : Bool :=
  s.all isBlank

/-- The first run of characters that are not blank, when there is one. -/
def firstWord? (s : List Char) : Option (List Char) :=
  match (trimStart s).takeWhile (!isBlank ·) with
  | [] => none
  | w => some w

/-- The empty text has no blanks to begin with. -/
@[simp] theorem trimStart_nil : trimStart [] = [] := rfl

/-- The empty text is trimmed. -/
@[simp] theorem trim_nil : trim [] = [] := rfl

/-- Trimming a text of blanks leaves nothing, and nothing else does. -/
theorem trimStart_eq_nil_iff {s : List Char} : trimStart s = [] ↔ isBlankText s = true := by
  induction s with
  | nil => simp [isBlankText]
  | cons c s ih => by_cases h : isBlank c <;> simp_all [trimStart, isBlankText]

end SqlReview.Text

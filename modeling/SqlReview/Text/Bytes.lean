/-!
# Byte offsets

A text measured in the bytes of its UTF-8 form. Two texts of the same byte length can be read side
by side at one offset; `dropBytes?` and `slice?` answer `none` where an offset lies beyond the end
or inside a character, so that nothing is ever read at half a character.
-/

namespace SqlReview.Text

/-- The number of bytes of a text in UTF-8. -/
def byteLength : List Char → Nat
  | [] => 0
  | c :: s => c.utf8Size + byteLength s

/-- A text without its first `n` bytes. -/
def dropBytes? : Nat → List Char → Option (List Char)
  | 0, s => some s
  | _ + 1, [] => none
  | n + 1, c :: s => if c.utf8Size ≤ n + 1 then dropBytes? (n + 1 - c.utf8Size) s else none

/-- The first `n` bytes of a text. -/
def takeBytes? : Nat → List Char → Option (List Char)
  | 0, _ => some []
  | _ + 1, [] => none
  | n + 1, c :: s =>
    if c.utf8Size ≤ n + 1 then (takeBytes? (n + 1 - c.utf8Size) s).map (c :: ·) else none

/-- The text from the byte offset `start` up to the byte offset `stop`. -/
def slice? (s : List Char) (start stop : Nat) : Option (List Char) :=
  if start ≤ stop then (dropBytes? start s).bind (takeBytes? (stop - start)) else none

/-- The empty text has no bytes. -/
@[simp] theorem byteLength_nil : byteLength [] = 0 := rfl

/-- The bytes of a text are those of its first character and those of the others. -/
@[simp] theorem byteLength_cons (c : Char) (s : List Char) :
    byteLength (c :: s) = c.utf8Size + byteLength s := rfl

/-- The bytes of two texts one after the other are counted together. -/
@[simp] theorem byteLength_append (a b : List Char) :
    byteLength (a ++ b) = byteLength a + byteLength b := by
  induction a with
  | nil => simp
  | cons c a ih => simp [ih, Nat.add_assoc]

/-- Without bytes to drop a text is left as it is. -/
@[simp] theorem dropBytes?_zero (s : List Char) : dropBytes? 0 s = some s := by
  cases s <;> rfl

/-- Without bytes to take nothing is taken. -/
@[simp] theorem takeBytes?_zero (s : List Char) : takeBytes? 0 s = some [] := by
  cases s <;> rfl

/-- Only the empty text has no bytes. -/
theorem byteLength_eq_zero_iff {s : List Char} : byteLength s = 0 ↔ s = [] := by
  cases s with
  | nil => simp
  | cons c s =>
    have := c.utf8Size_pos
    simp only [byteLength_cons, reduceCtorEq, iff_false]
    omega

/-- A character is dropped with all of its bytes. -/
@[simp] theorem dropBytes?_cons (n : Nat) (c : Char) (s : List Char) :
    dropBytes? (c.utf8Size + n) (c :: s) = dropBytes? n s := by
  obtain ⟨k, hk⟩ := Nat.exists_eq_add_one_of_ne_zero (Nat.ne_of_gt c.utf8Size_pos)
  have hsize : c.utf8Size + n = k + n + 1 := by omega
  have hrest : k + n + 1 - c.utf8Size = n := by omega
  rw [hsize, dropBytes?, if_pos (by omega), hrest]

/-- A character is taken with all of its bytes. -/
@[simp] theorem takeBytes?_cons (n : Nat) (c : Char) (s : List Char) :
    takeBytes? (c.utf8Size + n) (c :: s) = (takeBytes? n s).map (c :: ·) := by
  obtain ⟨k, hk⟩ := Nat.exists_eq_add_one_of_ne_zero (Nat.ne_of_gt c.utf8Size_pos)
  have hsize : c.utf8Size + n = k + n + 1 := by omega
  have hrest : k + n + 1 - c.utf8Size = n := by omega
  rw [hsize, takeBytes?, if_pos (by omega), hrest]

/-- Bytes can be dropped in two goes, the first of which takes a first part. -/
theorem dropBytes?_byteLength_add (a b : List Char) (n : Nat) :
    dropBytes? (byteLength a + n) (a ++ b) = dropBytes? n b := by
  induction a with
  | nil => rw [byteLength_nil, Nat.zero_add, List.nil_append]
  | cons c a ih => rw [byteLength_cons, Nat.add_assoc, List.cons_append, dropBytes?_cons, ih]

/-- The byte length of a first part is an offset at which the second part begins. -/
theorem dropBytes?_byteLength (a b : List Char) : dropBytes? (byteLength a) (a ++ b) = some b :=
  (dropBytes?_byteLength_add a b 0).trans (dropBytes?_zero b)

/-- The byte length of a first part is the offset at which it ends. -/
theorem takeBytes?_byteLength (a b : List Char) : takeBytes? (byteLength a) (a ++ b) = some a := by
  induction a with
  | nil => exact takeBytes?_zero b
  | cons c a ih =>
    rw [byteLength_cons, List.cons_append, takeBytes?_cons, ih]
    rfl

end SqlReview.Text

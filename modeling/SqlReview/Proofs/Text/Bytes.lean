import SqlReview.Text.Bytes

/-!
# Byte offsets and parts of a text

The offset at which a part of a text begins is the byte length of what stands before it, so a part
that reaches to the end is found by its byte length, and a slice is what two such parts differ in.
-/

namespace SqlReview.Text

/-- The bytes of a text in UTF-8. -/
def utf8 (s : List Char) : List UInt8 :=
  s.flatMap String.utf8EncodeChar

/-- The empty text has no bytes. -/
@[simp] theorem utf8_nil : utf8 [] = [] := rfl

/-- The bytes of a text are those of its first character and then those of the others. -/
@[simp] theorem utf8_cons (c : Char) (s : List Char) :
    utf8 (c :: s) = String.utf8EncodeChar c ++ utf8 s := rfl

/-- The bytes of two texts one after the other are those of the one and then of the other. -/
@[simp] theorem utf8_append (a b : List Char) : utf8 (a ++ b) = utf8 a ++ utf8 b :=
  List.flatMap_append

/-- A text has as many bytes as its byte length says. -/
theorem length_utf8 (s : List Char) : (utf8 s).length = byteLength s := by
  induction s with
  | nil => rfl
  | cons c s ih =>
    rw [utf8_cons, List.length_append, String.length_utf8EncodeChar, ih, byteLength_cons]

/-- The end of a text has no more bytes than the text. -/
theorem byteLength_le_of_suffix {a b : List Char} (h : a <:+ b) : byteLength a ≤ byteLength b := by
  obtain ⟨x, rfl⟩ := h
  rw [byteLength_append]
  omega

/-- A part that reaches to the end is found at its offset. -/
theorem dropBytes?_of_suffix {a s : List Char} (h : a <:+ s) {o : Nat}
    (ho : byteLength a + o = byteLength s) : dropBytes? o s = some a := by
  obtain ⟨x, rfl⟩ := h
  rw [byteLength_append] at ho
  have hx : o = byteLength x := by omega
  rw [hx, dropBytes?_byteLength]

/-- A slice is what stands between two offsets. -/
theorem slice?_of_suffix {s x b : List Char} {o p : Nat} (h : x ++ b <:+ s)
    (ho : byteLength (x ++ b) + o = byteLength s) (hp : byteLength b + p = byteLength s) :
    slice? s o p = some x := by
  rw [byteLength_append] at ho
  have hle : o ≤ p := by omega
  have hx : p - o = byteLength x := by omega
  rw [slice?, if_pos hle, dropBytes?_of_suffix h (by rw [byteLength_append]; exact ho), hx]
  exact takeBytes?_byteLength x b

/-- Two lengths cut out the part between them. -/
theorem slice?_byteLength (a b s : List Char) :
    slice? (a ++ (b ++ s)) (byteLength a) (byteLength a + byteLength b) = some b :=
  slice?_of_suffix ⟨a, rfl⟩ (by simp; omega) (by simp; omega)

/-- A range that ends before it begins cuts nothing out. -/
theorem slice?_eq_none {s : List Char} {o p : Nat} (h : p < o) : slice? s o p = none := by
  rw [slice?, if_neg (Nat.not_le.mpr h)]

end SqlReview.Text

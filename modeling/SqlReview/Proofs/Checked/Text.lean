import SqlReview.Proofs.Query.FromList
import SqlReview.Proofs.Text.Bytes

/-!
# Checked offsets

A scan that keeps byte offsets and cuts its text at them can go wrong in four ways: an offset lies
beyond the end, it lies inside of a character, a range ends before it starts, and a difference is
negative. Here scans are written with every cut, every index and every difference checked, so that
they have no outcome where one of them goes wrong, and each is shown to have the outcome that the
scan over characters has.

This module holds what all of them share: the loop over the characters of a text with their
offsets, and the comparison of bytes with a keyword.
-/

namespace SqlReview

open SqlReview.Text SqlReview.Query

/-- The outcome of a computation on byte offsets, if no offset, range or difference was wrong. -/
abbrev Checked (α : Type) := Option α

namespace Checked

/-- The difference of two numbers, the second of which is not greater. -/
def minus (a b : Nat) : Checked Nat :=
  if b ≤ a then some (a - b) else none

/-- The first `n` of some bytes. -/
def firstBytes (n : Nat) (bytes : List UInt8) : Checked (List UInt8) :=
  if n ≤ bytes.length then some (bytes.take n) else none

/-- The characters of a text that begins at an offset, with their offsets. -/
def charIndices (offset : Nat) : List Char → List (Nat × Char)
  | [] => []
  | c :: s => (offset, c) :: charIndices (offset + c.utf8Size) s

/-- A byte, in lower case if it is a capital letter of ASCII. -/
def lowerByte (b : UInt8) : UInt8 :=
  if 0x41 ≤ b ∧ b ≤ 0x5A then b + 0x20 else b

/-- Whether two runs of bytes are equal up to the case of ASCII letters. -/
def sameBytes (a b : List UInt8) : Bool :=
  a.map lowerByte == b.map lowerByte

/-- Whether a text begins with a keyword: its first bytes are compared with those of the keyword,
and it is cut behind them to see what follows. -/
def startsWith (keyword : String) (s : List Char) : Checked Bool :=
  let length := byteLength keyword.toList
  if byteLength s < length then some false
  else do
    let first ← firstBytes length (utf8 s)
    if sameBytes first (utf8 keyword.toList) then
      let rest ← dropBytes? length s
      some (!startsInName rest)
    else some false

/-- Whether a word may begin at an offset. -/
def atWordStart (text : List Char) (offset : Nat) : Checked Bool := do
  let before ← takeBytes? offset text
  some (!before.getLast?.any isNameChar)

/-- Two conditions, the second of which is looked at only where the first holds. -/
def andAlso (a : Bool) (b : Checked Bool) : Checked Bool :=
  if a then b else some false

/-- Whether one of several keywords stands at an offset, at the beginning of a word. -/
def keywordAt (keywords : List String) (text : List Char) (offset : Nat) : Checked Bool := do
  let start ← atWordStart text offset
  andAlso start (keywords.anyM fun keyword => do
    let rest ← dropBytes? offset text
    startsWith keyword rest)

/-! ### Places of a loop -/

/-- What follows a step without fault. -/
theorem some_bind {α β : Type} (a : α) (f : α → Checked β) : (some a >>= f) = f a := rfl

/-- A number that is not greater is subtracted as it is. -/
theorem minus_of_le {a b : Nat} (h : b ≤ a) : minus a b = some (a - b) :=
  if_pos h

/-- Of two conditions that are both told both are asked for. -/
@[simp] theorem andAlso_some (a b : Bool) : andAlso a (some b) = some (a && b) := by
  cases a <;> rfl

/-- The offset after one more character. -/
theorem byteLength_concat (p : List Char) (c : Char) :
    byteLength (p ++ [c]) = byteLength p + c.utf8Size := by
  rw [byteLength_append, byteLength_cons, byteLength_nil, Nat.add_zero]

/-- Characters are numbered by the bytes in front of them. -/
theorem charIndices_cons (p : List Char) (c : Char) (s : List Char) :
    charIndices (byteLength p) (c :: s) =
      (byteLength p, c) :: charIndices (byteLength (p ++ [c])) s := by
  rw [charIndices, byteLength_concat]

/-- Whether the last character before a place belongs to a name. -/
def endsInName (p : List Char) : Bool :=
  p.getLast?.any isNameChar

/-- The empty text does not end in a name. -/
@[simp] theorem endsInName_nil : endsInName [] = false := rfl

/-- A text ends in a name when its last character belongs to one. -/
@[simp] theorem endsInName_concat (p : List Char) (c : Char) :
    endsInName (p ++ [c]) = isNameChar c := by
  rw [endsInName, List.getLast?_concat, Option.any_some]

/-- A word begins at an offset when no name ends there. -/
theorem atWordStart_eq (p s : List Char) :
    atWordStart (p ++ s) (byteLength p) = some (!endsInName p) := by
  rw [atWordStart, takeBytes?_byteLength]
  rfl

/-! ### Keywords -/

/-- Whether a keyword is written in ASCII. -/
def IsAscii (keyword : String) : Prop :=
  ∀ c ∈ keyword.toList, c.toNat < 128

/-- Whether a keyword is in ASCII is told from its characters. -/
instance : DecidablePred IsAscii := fun keyword =>
  List.decidableBAll (fun c : Char => c.toNat < 128) keyword.toList

/-- A character of ASCII is one byte. -/
theorem utf8EncodeChar_ascii {c : Char} (h : c.toNat < 128) :
    String.utf8EncodeChar c = [UInt8.ofNat c.toNat] :=
  if_pos (show c.val.toNat ≤ 127 from Nat.le_of_lt_succ h)

private theorem exists_first_byte {c : Char} (h : 128 ≤ c.toNat) :
    ∃ b bytes, String.utf8EncodeChar c = b :: bytes ∧ 128 ≤ b.toNat := by
  have hval : ¬c.val.toNat ≤ 127 := Nat.not_le.mpr h
  unfold String.utf8EncodeChar
  simp only [if_neg hval]
  split
  · refine ⟨_, _, rfl, ?_⟩
    rw [UInt8.toNat_ofNat']
    omega
  · split
    · refine ⟨_, _, rfl, ?_⟩
      rw [UInt8.toNat_ofNat']
      omega
    · refine ⟨_, _, rfl, ?_⟩
      rw [UInt8.toNat_ofNat']
      omega

private theorem toNat_lowerByte (b : UInt8) :
    (lowerByte b).toNat = if 65 ≤ b.toNat ∧ b.toNat ≤ 90 then b.toNat + 32 else b.toNat := by
  have hiff : (0x41 ≤ b ∧ b ≤ 0x5A) ↔ 65 ≤ b.toNat ∧ b.toNat ≤ 90 := Iff.rfl
  rw [lowerByte]
  by_cases h : 65 ≤ b.toNat ∧ b.toNat ≤ 90
  · rw [if_pos (hiff.mpr h), if_pos h, UInt8.toNat_add]
    show (b.toNat + 32) % 256 = _
    omega
  · rw [if_neg (mt hiff.mp h), if_neg h]

private theorem toNat_toLower (c : Char) :
    c.toLower.toNat = if 65 ≤ c.toNat ∧ c.toNat ≤ 90 then c.toNat + 32 else c.toNat := by
  have hiff : (c.val ≥ 'A'.val ∧ c.val ≤ 'Z'.val) ↔ 65 ≤ c.toNat ∧ c.toNat ≤ 90 := Iff.rfl
  unfold Char.toLower
  by_cases h : 65 ≤ c.toNat ∧ c.toNat ≤ 90
  · rw [dif_pos (hiff.mpr h), if_pos h]
    show (c.val + 32).toNat = c.val.toNat + 32
    have hc : c.val.toNat ≤ 90 := h.2
    rw [UInt32.toNat_add]
    show (c.val.toNat + 32) % 2 ^ 32 = _
    omega
  · rw [dif_neg (mt hiff.mp h), if_neg h]

private theorem lowerByte_beq_of_ascii {k c : Char} (hk : k.toNat < 128) (hc : c.toNat < 128) :
    (lowerByte (UInt8.ofNat c.toNat) == lowerByte (UInt8.ofNat k.toNat)) = sameLetter k c := by
  have hbyte : ∀ d : Char, d.toNat < 128 →
      (lowerByte (UInt8.ofNat d.toNat)).toNat = d.toLower.toNat := by
    intro d hd
    have hsize : (UInt8.ofNat d.toNat).toNat = d.toNat := by
      rw [UInt8.toNat_ofNat']
      omega
    rw [toNat_lowerByte, toNat_toLower, hsize]
  rw [Bool.eq_iff_iff, sameLetter, beq_iff_eq, beq_iff_eq, ← UInt8.toNat_inj, hbyte c hc,
    hbyte k hk, eq_comm, Char.toNat_inj]

/-- A character beyond ASCII is no letter of a keyword, and neither is its first byte. -/
theorem lowerByte_beq_of_not_ascii {k c : Char} {b : UInt8} (hk : k.toNat < 128)
    (hb : 128 ≤ b.toNat) (hc : 128 ≤ c.toNat) :
    (lowerByte b == lowerByte (UInt8.ofNat k.toNat)) = false ∧ sameLetter k c = false := by
  have hsize : (UInt8.ofNat k.toNat).toNat = k.toNat := by
    rw [UInt8.toNat_ofNat']
    omega
  have hbyte := toNat_lowerByte b
  have hkey := toNat_lowerByte (UInt8.ofNat k.toNat)
  have hchar := toNat_toLower c
  have hletter := toNat_toLower k
  rw [hsize] at hkey
  rw [if_neg (by omega)] at hbyte hchar
  constructor
  · refine beq_eq_false_iff_ne.mpr fun h => ?_
    rw [← UInt8.toNat_inj] at h
    split at hkey <;> omega
  · refine beq_eq_false_iff_ne.mpr fun h => ?_
    rw [← Char.toNat_inj] at h
    split at hletter <;> omega

private theorem sameBytes_cons (a b : UInt8) (x y : List UInt8) :
    sameBytes (a :: x) (b :: y) = (lowerByte a == lowerByte b && sameBytes x y) := rfl

/-- The first bytes of a text are those of some letters of ASCII exactly if its first characters
are. -/
theorem sameBytes_take {ks : List Char} (hk : ∀ k ∈ ks, k.toNat < 128) (s : List Char) :
    sameBytes ((utf8 s).take (byteLength ks)) (utf8 ks) = (dropLetters? ks s).isSome := by
  induction ks generalizing s with
  | nil => rfl
  | cons k ks ih =>
    have hkey : k.toNat < 128 := hk k (List.mem_cons_self ..)
    have hsize : k.utf8Size = 1 := Char.utf8Size_eq_one_iff.mpr (Nat.le_of_lt_succ hkey)
    rw [byteLength_cons, hsize, Nat.add_comm, utf8_cons, utf8EncodeChar_ascii hkey]
    cases s with
    | nil => rfl
    | cons c s =>
      rw [utf8_cons, dropLetters?]
      by_cases hc : c.toNat < 128
      · rw [utf8EncodeChar_ascii hc, List.singleton_append, List.singleton_append,
          List.take_succ_cons, sameBytes_cons, lowerByte_beq_of_ascii hkey hc,
          ih fun e he => hk e (List.mem_cons_of_mem k he)]
        cases sameLetter k c <;> rfl
      · have hbeyond : 128 ≤ c.toNat := Nat.le_of_not_lt hc
        obtain ⟨b, bytes, hbytes, hb⟩ := exists_first_byte hbeyond
        obtain ⟨hbyte, hletter⟩ := lowerByte_beq_of_not_ascii hkey hb hbeyond
        rw [hbytes, List.cons_append, List.singleton_append, List.take_succ_cons, sameBytes_cons,
          hbyte, hletter]
        rfl

/-- A text can be cut behind the letters that it begins with. -/
theorem dropBytes?_of_dropLetters? {ks s rest : List Char} (h : dropLetters? ks s = some rest) :
    dropBytes? (byteLength ks) s = some rest := by
  obtain ⟨hsuffix, hlength⟩ := suffix_dropLetters? h
  exact dropBytes?_of_suffix hsuffix (by omega)

private theorem firstBytes_of_le {n : Nat} {bytes : List UInt8} (h : n ≤ bytes.length) :
    firstBytes n bytes = some (bytes.take n) :=
  if_pos h

/-- With its offsets checked, a text begins with a keyword where it begins with it. -/
theorem startsWith_eq {keyword : String} (hk : IsAscii keyword) (s : List Char) :
    startsWith keyword s = some (Query.startsWith keyword s) := by
  have hsame := sameBytes_take hk s
  cases hdrop : dropLetters? keyword.toList s with
  | none =>
    have hnot : Query.startsWith keyword s = false := by
      rw [Query.startsWith, afterKeyword?, hdrop]
      rfl
    rw [hdrop] at hsame
    rw [startsWith, hnot]
    split
    · rfl
    · rw [firstBytes_of_le (by rw [length_utf8]; omega), some_bind, hsame]
      rfl
  | some rest =>
    have hlength := (suffix_dropLetters? hdrop).2
    have hstarts : Query.startsWith keyword s = !startsInName rest := by
      rw [Query.startsWith, afterKeyword?, hdrop]
      cases hname : startsInName rest <;> simp [Option.filter, hname]
    rw [hdrop] at hsame
    rw [startsWith, hstarts, if_neg (by omega), firstBytes_of_le (by rw [length_utf8]; omega),
      some_bind, hsame, dropBytes?_of_dropLetters? hdrop]
    rfl

/-- What is tried of the members of a list one after the other is tried without fault if it is so
of each. -/
theorem anyM_eq {α : Type} {f : α → Checked Bool} {g : α → Bool} {l : List α}
    (h : ∀ a ∈ l, f a = some (g a)) : l.anyM f = some (l.any g) := by
  induction l with
  | nil => rfl
  | cons a l ih =>
    rw [List.anyM, h a (List.mem_cons_self ..), List.any_cons]
    cases g a with
    | true => rfl
    | false => exact ih fun b hb => h b (List.mem_cons_of_mem a hb)

/-- What is done with the members of a list one after the other is done without fault if it is so
of each. -/
theorem mapM_eq {α β : Type} {f : α → Checked β} {g : α → β} {l : List α}
    (h : ∀ a ∈ l, f a = some (g a)) : l.mapM f = some (l.map g) := by
  induction l with
  | nil => rfl
  | cons a l ih =>
    rw [List.mapM_cons, h a (List.mem_cons_self ..), some_bind,
      ih fun b hb => h b (List.mem_cons_of_mem a hb)]
    rfl

/-- With its offsets checked, a keyword stands at an offset where it stands there as a word. -/
theorem keywordAt_eq {keywords : List String} (hk : ∀ k ∈ keywords, IsAscii k) (p s : List Char) :
    keywordAt keywords (p ++ s) (byteLength p) =
      some (!endsInName p && startsWithAny keywords s) := by
  have htried : (keywords.anyM fun keyword => do
      let rest ← dropBytes? (byteLength p) (p ++ s)
      startsWith keyword rest) = some (startsWithAny keywords s) := by
    refine anyM_eq fun keyword hkeyword => ?_
    rw [dropBytes?_byteLength, some_bind]
    exact startsWith_eq (hk keyword hkeyword) s
  rw [keywordAt, atWordStart_eq, htried, some_bind, andAlso_some]

end Checked

end SqlReview

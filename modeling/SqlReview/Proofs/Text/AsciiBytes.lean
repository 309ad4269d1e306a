import SqlReview.Proofs.Checked.Text

/-!
# Bytes of ASCII

A character of ASCII is one byte, and a character beyond it is written in bytes beyond ASCII. So a
byte of ASCII in a text is its character there, and the bytes can be counted for the characters.
-/

namespace SqlReview.Text

/-- The byte of a character of ASCII. -/
def asciiByte (k : Char) : UInt8 :=
  UInt8.ofNat k.toNat

private theorem asciiByte_inj {c k : Char} (hc : c.toNat < 128) (hk : k.toNat < 128)
    (h : asciiByte c = asciiByte k) : c = k := by
  have hbytes := congrArg UInt8.toNat h
  rw [asciiByte, asciiByte, UInt8.toNat_ofNat', UInt8.toNat_ofNat'] at hbytes
  apply Char.toNat_inj.mp
  omega

/-- A character beyond ASCII is written in bytes beyond ASCII. -/
theorem le_of_mem_utf8EncodeChar {c : Char} (hc : 128 ≤ c.toNat) {b : UInt8}
    (hb : b ∈ String.utf8EncodeChar c) : 128 ≤ b.toNat := by
  have hval : ¬c.val.toNat ≤ 127 := Nat.not_le.mpr hc
  unfold String.utf8EncodeChar at hb
  simp only [if_neg hval] at hb
  split at hb
  · simp only [List.mem_cons, List.not_mem_nil, or_false] at hb
    rcases hb with rfl | rfl
    all_goals
      rw [UInt8.toNat_ofNat']
      omega
  · split at hb
    · simp only [List.mem_cons, List.not_mem_nil, or_false] at hb
      rcases hb with rfl | rfl | rfl
      all_goals
        rw [UInt8.toNat_ofNat']
        omega
    · simp only [List.mem_cons, List.not_mem_nil, or_false] at hb
      rcases hb with rfl | rfl | rfl | rfl
      all_goals
        rw [UInt8.toNat_ofNat']
        omega

variable {k : Char}

private theorem asciiByte_notMem {c : Char} (hk : k.toNat < 128) (hc : 128 ≤ c.toNat) :
    asciiByte k ∉ String.utf8EncodeChar c := by
  intro hmem
  have hle := le_of_mem_utf8EncodeChar hc hmem
  rw [asciiByte, UInt8.toNat_ofNat'] at hle
  omega

/-- A text has a byte of ASCII as often as its character. -/
theorem count_utf8 (hk : k.toNat < 128) (s : List Char) :
    (utf8 s).count (asciiByte k) = s.count k := by
  induction s with
  | nil => rfl
  | cons c s ih =>
    rw [utf8_cons, List.count_append, ih, List.count_cons, Nat.add_comm]
    congr 1
    by_cases hc : c.toNat < 128
    · rw [Checked.utf8EncodeChar_ascii hc, List.count_singleton]
      by_cases heq : c = k
      · subst heq
        simp [asciiByte]
      · have hne : UInt8.ofNat c.toNat ≠ asciiByte k := fun h => heq (asciiByte_inj hc hk h)
        simp [heq, hne]
    · have hne : c ≠ k := by
        rintro rfl
        exact hc hk
      rw [List.count_eq_zero_of_not_mem (asciiByte_notMem hk (Nat.le_of_not_lt hc))]
      simp [hne]

/-- A byte of ASCII is where its character begins. -/
theorem getElem?_utf8_eq_iff (hk : k.toNat < 128) {s : List Char} {i : Nat} :
    (utf8 s)[i]? = some (asciiByte k) ↔ ∃ a v, s = a ++ k :: v ∧ byteLength a = i := by
  constructor
  · intro h
    induction s generalizing i with
    | nil => exact absurd h (by simp)
    | cons c s ih =>
      rw [utf8_cons] at h
      by_cases hi : i < (String.utf8EncodeChar c).length
      · rw [List.getElem?_append_left hi] at h
        have hmem := List.mem_of_getElem? h
        have hc : c.toNat < 128 :=
          Nat.lt_of_not_le fun hc => asciiByte_notMem hk hc hmem
        rw [Checked.utf8EncodeChar_ascii hc] at h hi
        obtain rfl : i = 0 := by simpa using hi
        obtain rfl : c = k := asciiByte_inj hc hk (Option.some.inj h)
        exact ⟨[], s, rfl, rfl⟩
      · rw [List.getElem?_append_right (Nat.le_of_not_lt hi)] at h
        obtain ⟨a, v, rfl, ha⟩ := ih h
        refine ⟨c :: a, v, rfl, ?_⟩
        rw [String.length_utf8EncodeChar] at hi ha
        rw [byteLength_cons]
        omega
  · rintro ⟨a, v, rfl, rfl⟩
    rw [utf8_append, utf8_cons, Checked.utf8EncodeChar_ascii hk, ← length_utf8,
      List.getElem?_append_right (Nat.le_refl _), Nat.sub_self]
    rfl

/-! ### First bytes -/

/-- The beginning of a text has no more bytes than the text. -/
theorem byteLength_le_of_prefix {a b : List Char} (h : a <+: b) : byteLength a ≤ byteLength b := by
  obtain ⟨x, rfl⟩ := h
  rw [byteLength_append]
  omega

/-- The first bytes of a text, if they are whole characters. -/
theorem exists_of_takeBytes? {n : Nat} {s a : List Char} (h : takeBytes? n s = some a) :
    byteLength a = n ∧ a <+: s := by
  induction s generalizing n a with
  | nil =>
    cases n with
    | zero =>
      obtain rfl := Option.some.inj h
      exact ⟨rfl, List.nil_prefix⟩
    | succ n => exact absurd h (by simp [takeBytes?])
  | cons c s ih =>
    cases n with
    | zero =>
      obtain rfl := Option.some.inj h
      exact ⟨rfl, List.nil_prefix⟩
    | succ n =>
      rw [takeBytes?] at h
      split at h
      · obtain ⟨x, hx, rfl⟩ := Option.map_eq_some_iff.mp h
        obtain ⟨hlength, hprefix⟩ := ih hx
        refine ⟨?_, List.cons_prefix_cons.mpr ⟨rfl, hprefix⟩⟩
        rw [byteLength_cons, hlength]
        omega
      · exact absurd h (by simp)

private theorem suffix_of_dropBytes? {n : Nat} {s a : List Char} (h : dropBytes? n s = some a) :
    a <:+ s := by
  fun_induction dropBytes? n s with
  | case1 s =>
    obtain rfl := Option.some.inj h
    exact List.suffix_refl _
  | case2 n => exact absurd h (by simp)
  | case3 n c s hle ih => exact (ih h).trans (List.suffix_cons c s)
  | case4 n c s hle => exact absurd h (by simp)

/-- A slice of a text is made of its characters. -/
theorem subset_of_slice? {s t : List Char} {start stop : Nat} (h : slice? s start stop = some t) :
    t ⊆ s := by
  unfold slice? at h
  split at h
  · obtain ⟨a, ha, ht⟩ := Option.bind_eq_some_iff.mp h
    exact List.Subset.trans (exists_of_takeBytes? ht).2.subset (suffix_of_dropBytes? ha).subset
  · exact absurd h (by simp)

end SqlReview.Text

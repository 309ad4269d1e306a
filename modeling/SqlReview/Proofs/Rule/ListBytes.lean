import Mathlib.Order.Bounds.Basic
import SqlReview.Proofs.Rule.ListTables
import SqlReview.Proofs.Text.AsciiBytes

/-!
# Tables of lists of values, byte by byte

The tables of a text told by scans over its bytes. The parenthesis that closes another one is the
first behind it where one parenthesis more has been closed than was opened since; there is none if
no closing parenthesis is such a one. What stands before the opening parenthesis does not matter,
since the scan begins behind it.
-/

namespace SqlReview.Rule

open SqlReview.Text SqlReview.Query

/-! ### The first parenthesis too many -/

/-- Whether a text goes on with a closing parenthesis behind a part that, with `depth` parentheses
open before it, leaves none open. -/
def Closes (depth : Nat) (s w : List Char) : Prop :=
  w ++ [')'] <+: s ∧ w.count ')' = depth + w.count '('

variable {depth : Nat} {c : Char} {s w : List Char}

/-- A character that does not close the last parenthesis belongs to the part. -/
theorem closes_cons_iff (h : (c == ')' && depth == 0) = false) :
    Closes depth (c :: s) w ↔ ∃ x, w = c :: x ∧ Closes (depthAfter depth c) s x := by
  have hcount : ∀ x : List Char, (c :: x).count ')' = depth + (c :: x).count '(' ↔
      x.count ')' = depthAfter depth c + x.count '(' := by
    intro x
    rw [List.count_cons, List.count_cons, depthAfter]
    by_cases hopen : c = '('
    · subst hopen
      simp
      omega
    · by_cases hclose : c = ')'
      · subst hclose
        have hdepth : depth ≠ 0 := by simpa using h
        simp
        omega
      · simp [hopen, hclose]
  constructor
  · rintro ⟨hpart, hw⟩
    cases w with
    | nil =>
      obtain ⟨rfl, -⟩ := List.cons_prefix_cons.mp hpart
      have hdepth : depth = 0 := by simpa using hw.symm
      simp [hdepth] at h
    | cons d x =>
      obtain ⟨rfl, hx⟩ := List.cons_prefix_cons.mp hpart
      exact ⟨x, rfl, hx, (hcount x).mp hw⟩
  · rintro ⟨x, rfl, hx, hcounts⟩
    exact ⟨List.cons_prefix_cons.mpr ⟨rfl, hx⟩, (hcount x).mpr hcounts⟩

/-- What a parenthesis encloses ends with the parenthesis that closes it, if there is one. -/
theorem closes_enclosed (h : enclosed depth s ≠ s) : Closes depth s (enclosed depth s) := by
  induction s generalizing depth with
  | nil => exact absurd rfl h
  | cons c s ih =>
    cases hclose : c == ')' && depth == 0 with
    | true =>
      obtain ⟨rfl, rfl⟩ : c = ')' ∧ depth = 0 := by simpa using hclose
      exact ⟨⟨s, rfl⟩, rfl⟩
    | false =>
      rw [enclosed_cons_ne hclose] at h ⊢
      have hrest : enclosed (depthAfter depth c) s ≠ s := fun heq => h (congrArg (c :: ·) heq)
      exact (closes_cons_iff hclose).mpr ⟨_, rfl, ih hrest⟩

/-- It ends at the first such parenthesis. -/
theorem enclosed_prefix_of_closes (h : Closes depth s w) :
    enclosed depth s ≠ s ∧ enclosed depth s <+: w := by
  induction s generalizing depth w with
  | nil => exact absurd h.1.length_le (by simp)
  | cons c s ih =>
    cases hclose : c == ')' && depth == 0 with
    | true =>
      have hnil : enclosed depth (c :: s) = [] := by rw [enclosed, if_pos hclose]
      rw [hnil]
      exact ⟨(List.cons_ne_nil c s).symm, List.nil_prefix⟩
    | false =>
      obtain ⟨x, rfl, hx⟩ := (closes_cons_iff hclose).mp h
      obtain ⟨hne, hprefix⟩ := ih hx
      rw [enclosed_cons_ne hclose]
      exact ⟨fun heq => hne (List.cons.inj heq).2, List.cons_prefix_cons.mpr ⟨rfl, hprefix⟩⟩

/-! ### The scan over the bytes -/

/-- Whether the byte at `j` is a closing parenthesis behind the byte at `i`, and the bytes from
behind `i` up to it close one parenthesis more than they open. -/
structure ClosesOneMore (bytes : List UInt8) (i j : Nat) : Prop where
  behind : i < j
  closing : bytes[j]? = some (asciiByte ')')
  surplus : ((bytes.take (j + 1)).drop (i + 1)).count (asciiByte ')') =
    ((bytes.take (j + 1)).drop (i + 1)).count (asciiByte '(') + 1

private theorem ascii_opening : '('.toNat < 128 := by decide

private theorem ascii_closing : ')'.toNat < 128 := by decide

private theorem passage_eq (a w r : List Char) :
    ((utf8 (a ++ '(' :: (w ++ ')' :: r))).take (byteLength a + 1 + byteLength w + 1)).drop
      (byteLength a + 1) = utf8 (w ++ [')']) := by
  have hbytes : utf8 (a ++ '(' :: (w ++ ')' :: r)) =
      utf8 (a ++ ['(']) ++ (utf8 (w ++ [')']) ++ utf8 r) := by simp
  have hfront : (utf8 (a ++ ['('])).length = byteLength a + 1 := by
    rw [length_utf8, byteLength_append]
    rfl
  have hpassage : (utf8 (w ++ [')'])).length = byteLength w + 1 := by
    rw [length_utf8, byteLength_append]
    rfl
  have hlength : byteLength a + 1 + byteLength w + 1 =
      (utf8 (a ++ ['('])).length + (utf8 (w ++ [')'])).length := by
    rw [hfront, hpassage]
    omega
  rw [hlength, ← hfront, hbytes, List.drop_take, List.drop_left, Nat.add_sub_cancel_left,
    List.take_left]

/-- The scan over the bytes finds the parentheses that close too many in the text. -/
theorem closesOneMore_iff {a v : List Char} {j : Nat} :
    ClosesOneMore (utf8 (a ++ '(' :: v)) (byteLength a) j ↔
      ∃ w, Closes 0 v w ∧ j = byteLength a + 1 + byteLength w := by
  have hcount : ∀ w : List Char,
      ((utf8 (w ++ [')'])).count (asciiByte ')') = (utf8 (w ++ [')'])).count (asciiByte '(') + 1) ↔
        w.count ')' = 0 + w.count '(' := by
    intro w
    rw [count_utf8 ascii_closing, count_utf8 ascii_opening, List.count_append, List.count_append,
      List.count_singleton_self, show [')'].count '(' = 0 from rfl]
    omega
  constructor
  · rintro ⟨hbehind, hclosing, hsurplus⟩
    obtain ⟨x, r, hx, rfl⟩ := (getElem?_utf8_eq_iff ascii_closing).mp hclosing
    -- the opening parenthesis stands in what comes before the closing one
    obtain ⟨w, rfl, rfl⟩ : ∃ w, x = a ++ '(' :: w ∧ v = w ++ ')' :: r := by
      rcases List.append_eq_append_iff.mp hx with ⟨y, rfl, hy⟩ | ⟨y, rfl, hy⟩
      · cases y with
        | nil =>
          rw [List.append_nil] at hbehind
          exact absurd hbehind (Nat.lt_irrefl _)
        | cons d y =>
          obtain ⟨rfl, rfl⟩ := List.cons.inj hy
          exact ⟨y, rfl, rfl⟩
      · rw [byteLength_append] at hbehind
        omega
    have hoffset : byteLength (a ++ '(' :: w) = byteLength a + 1 + byteLength w := by
      rw [byteLength_append, byteLength_cons, Nat.add_assoc]
      rfl
    rw [hoffset, passage_eq] at hsurplus
    exact ⟨w, ⟨⟨r, by simp⟩, (hcount w).mp hsurplus⟩, hoffset⟩
  · rintro ⟨w, ⟨⟨r, rfl⟩, hw⟩, rfl⟩
    rw [List.append_assoc, List.singleton_append]
    refine ⟨by omega, (getElem?_utf8_eq_iff ascii_closing).mpr ⟨a ++ '(' :: w, r, by simp, ?_⟩, ?_⟩
    · rw [byteLength_append, byteLength_cons, Nat.add_assoc]
      rfl
    · rw [passage_eq]
      exact (hcount w).mpr hw

/-- The offset behind what an opening parenthesis encloses is the first that the scan finds. -/
theorem isLeast_enclosed {a v : List Char} (h : enclosed 0 v ≠ v) :
    IsLeast {j | ClosesOneMore (utf8 (a ++ '(' :: v)) (byteLength a) j}
      (byteLength a + 1 + byteLength (enclosed 0 v)) := by
  constructor
  · exact closesOneMore_iff.mpr ⟨_, closes_enclosed h, rfl⟩
  · intro j hj
    obtain ⟨w, hw, rfl⟩ := closesOneMore_iff.mp hj
    have hle := byteLength_le_of_prefix (enclosed_prefix_of_closes hw).2
    omega

/-- The two tables of a text agree with plain scans. An opening parenthesis, whatever stands before
it, is listed with the first closing parenthesis behind it at which one more has been closed than
was opened, and it is not listed if there is none. Before an offset between two characters there
stand as many characters as the text up to it has. -/
theorem closings_and_charsBefore (s : List Char) :
    (∀ i, (utf8 s)[i]? = some (asciiByte '(') →
      (∀ j, (closings s)[i + 1]? = some j ↔ IsLeast {j | ClosesOneMore (utf8 s) i j} j) ∧
      ((closings s)[i + 1]? = none ↔ ∀ j, ¬ ClosesOneMore (utf8 s) i j)) ∧
    ∀ b a, takeBytes? b s = some a → (charsBefore s)[b]? = some a.length := by
  refine ⟨fun i hi => ?_, fun b a ha => ?_⟩
  · obtain ⟨a, v, rfl, rfl⟩ := (getElem?_utf8_eq_iff ascii_opening).mp hi
    rw [getElem?_closings]
    by_cases hall : enclosed 0 v = v
    · have hnone : ∀ j, ¬ ClosesOneMore (utf8 (a ++ '(' :: v)) (byteLength a) j := by
        intro j hj
        obtain ⟨w, hw, -⟩ := closesOneMore_iff.mp hj
        exact (enclosed_prefix_of_closes hw).1 hall
      rw [if_pos hall]
      refine ⟨fun j => ?_, iff_of_true rfl hnone⟩
      exact iff_of_false (by simp) fun hj => hnone j hj.1
    · have hleast := isLeast_enclosed (a := a) hall
      rw [if_neg hall]
      refine ⟨fun j => ?_, iff_of_false (by simp) fun hnone => hnone _ hleast.1⟩
      rw [Option.some.injEq]
      constructor
      · rintro rfl
        exact hleast
      · exact hleast.unique
  · obtain ⟨rfl, r, rfl⟩ := exists_of_takeBytes? ha
    exact getElem?_charsBefore a r

/-- In front of the list stand a parenthesis that closes none and one that is never closed, and in
the list a character of two bytes. -/
theorem closings_and_charsBefore_unmatched :
    let s := ")((é)".toList
    (IsLeast {j | ClosesOneMore (utf8 s) 2 j} 5 ∧ (closings s)[3]? = some 5) ∧
      ((∀ j, ¬ ClosesOneMore (utf8 s) 1 j) ∧ (closings s)[2]? = none) ∧
      takeBytes? 5 s = some ")((é".toList ∧ (charsBefore s)[5]? = some 4 := by
  intro s
  obtain ⟨hclosings, hchars⟩ := closings_and_charsBefore s
  obtain ⟨hinner, -⟩ := hclosings 2 (by decide)
  obtain ⟨-, houter⟩ := hclosings 1 (by decide)
  have hclosed : (closings s)[3]? = some 5 := by decide +kernel
  have hopen : (closings s)[2]? = none := by decide +kernel
  have hfirst : takeBytes? 5 s = some ")((é".toList := by decide
  exact ⟨⟨(hinner 5).mp hclosed, hclosed⟩, ⟨houter.mp hopen, hopen⟩, hfirst,
    hchars 5 _ hfirst⟩

end SqlReview.Rule

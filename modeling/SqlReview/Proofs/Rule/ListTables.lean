import SqlReview.Proofs.Text.Bytes
import SqlReview.Query.TopLevel
import SqlReview.Rule.InList

/-!
# Tables of lists of values

What the two tables of a text hold, told by plain scans: the offset of the parenthesis that closes
another one is where a scan of the text behind that one comes to the first parenthesis too many, and
the number of characters before an offset is the length of the text in front of it.
-/

namespace SqlReview.Rule

open SqlReview.Text SqlReview.Query

/-- The text up to the parenthesis that closes more than the text opens, `depth` parentheses being
open already. It is the whole text if there is none. -/
def enclosed (depth : Nat) : List Char → List Char
  | [] => []
  | c :: s => if c == ')' && depth == 0 then [] else c :: enclosed (depthAfter depth c) s

/-! ### Closing parentheses -/

/-- A character that closes no parenthesis from outside is enclosed. -/
theorem enclosed_cons_ne {depth : Nat} {c : Char} (h : (c == ')' && depth == 0) = false)
    (s : List Char) : enclosed depth (c :: s) = c :: enclosed (depthAfter depth c) s := by
  rw [enclosed, h]
  rfl

private theorem getElem?_insert_of_ne {start k : Nat} (h : start ≠ k) (stop : Nat)
    (found : Std.TreeMap Nat Nat) : (found.insert start stop)[k]? = found[k]? := by
  rw [Std.TreeMap.getElem?_insert, if_neg]
  simpa using h

/-- A parenthesis that was opened in front of a text and is not open any more keeps its entry. -/
theorem getElem?_closingsFrom_of_lt {start offset : Nat} {opened : List Nat}
    (hopened : ∀ i ∈ opened, i ≠ start) (hoffset : start ≤ offset) (found : Std.TreeMap Nat Nat)
    (s : List Char) : (closingsFrom offset opened found s)[start]? = found[start]? := by
  induction s generalizing offset opened found with
  | nil => rfl
  | cons c s ih =>
    have hsize := c.utf8Size_pos
    rw [closingsFrom.eq_def]
    simp only
    split
    · refine ih (fun i hi => ?_) (by omega) found
      rcases List.mem_cons.mp hi with rfl | hi
      · omega
      · exact hopened i hi
    · split
      · cases opened with
        | nil => exact ih hopened (by omega) found
        | cons i opened =>
          rw [ih (fun j hj => hopened j (List.mem_cons_of_mem i hj)) (by omega),
            getElem?_insert_of_ne (hopened i (List.mem_cons_self ..))]
      · exact ih hopened (by omega) found

/-- The parenthesis at a height of the stack is closed where as many parentheses as are open above
it have been closed, and itself. -/
theorem getElem?_closingsFrom {start offset : Nat} {inner outer : List Nat}
    (hinner : ∀ i ∈ inner, i ≠ start) (houter : ∀ i ∈ outer, i ≠ start) (hoffset : start ≤ offset)
    {found : Std.TreeMap Nat Nat} (hfound : found[start]? = none) (s : List Char) :
    (closingsFrom offset (inner ++ start :: outer) found s)[start]? =
      if enclosed inner.length s = s then none
      else some (offset + byteLength (enclosed inner.length s)) := by
  induction s generalizing offset inner found with
  | nil => exact hfound
  | cons c s ih =>
    have hsize := c.utf8Size_pos
    -- a character that does not close the parenthesis is part of what is enclosed
    have hstep : ∀ {inner' : List Nat} {found' : Std.TreeMap Nat Nat},
        (∀ i ∈ inner', i ≠ start) → found'[start]? = none →
        inner'.length = depthAfter inner.length c → (c == ')' && inner.length == 0) = false →
        (closingsFrom (offset + c.utf8Size) (inner' ++ start :: outer) found' s)[start]? =
          if enclosed inner.length (c :: s) = c :: s then none
          else some (offset + byteLength (enclosed inner.length (c :: s))) := by
      intro inner' found' hi hf hlength hstay
      rw [ih hi (by omega) hf, hlength, enclosed_cons_ne hstay, byteLength_cons, ← Nat.add_assoc]
      simp only [List.cons.injEq, true_and]
    rw [closingsFrom.eq_def]
    simp only
    split
    · next hopen =>
      obtain rfl : c = '(' := beq_iff_eq.mp hopen
      have hopened : ∀ i ∈ (offset + '('.utf8Size) :: inner, i ≠ start := by
        intro i hi
        rcases List.mem_cons.mp hi with rfl | hi
        · omega
        · exact hinner i hi
      exact hstep hopened hfound rfl rfl
    · next hopen =>
      split
      · next hclose =>
        obtain rfl : c = ')' := beq_iff_eq.mp hclose
        cases inner with
        | nil =>
          have hnil : enclosed 0 (')' :: s) = [] := rfl
          simp only [List.nil_append, List.length_nil, hnil]
          rw [getElem?_closingsFrom_of_lt houter (by omega), Std.TreeMap.getElem?_insert_self]
          rfl
        | cons i inner =>
          refine hstep (fun j hj => hinner j (List.mem_cons_of_mem i hj)) ?_ rfl rfl
          rw [getElem?_insert_of_ne (hinner i (List.mem_cons_self ..)), hfound]
      · next hclose =>
        refine hstep hinner hfound ?_ ?_
        · rw [depthAfter, if_neg hopen, if_neg hclose]
        · rw [Bool.eq_false_iff.mpr hclose, Bool.false_and]

/-- The entries that a first part leaves, and the parentheses that it leaves open, all lie in it. -/
theorem exists_closingsFrom_append {offset : Nat} {opened : List Nat} {found : Std.TreeMap Nat Nat}
    (hopened : ∀ i ∈ opened, i ≤ offset) (hfound : ∀ k, offset < k → found[k]? = none)
    (a : List Char) : ∃ opened' found', (∀ i ∈ opened', i ≤ offset + byteLength a) ∧
      (∀ k, offset + byteLength a < k → found'[k]? = none) ∧
      ∀ s, closingsFrom offset opened found (a ++ s) =
        closingsFrom (offset + byteLength a) opened' found' s := by
  induction a generalizing offset opened found with
  | nil => exact ⟨opened, found, hopened, hfound, fun _ => rfl⟩
  | cons c a ih =>
    have hsize := c.utf8Size_pos
    have hlater : ∀ k, offset + c.utf8Size < k → found[k]? = none :=
      fun k hk => hfound k (by omega)
    have hearlier : ∀ i ∈ opened, i ≤ offset + c.utf8Size := fun i hi => by
      have := hopened i hi
      omega
    rw [byteLength_cons, ← Nat.add_assoc]
    simp only [List.cons_append, closingsFrom.eq_def offset opened found (c :: (a ++ _))]
    split
    · refine ih (fun i hi => ?_) hlater
      rcases List.mem_cons.mp hi with rfl | hi
      · exact Nat.le_refl _
      · exact hearlier i hi
    · split
      · cases opened with
        | nil => exact ih (by simp) hlater
        | cons i opened =>
          refine ih (fun j hj => hearlier j (List.mem_cons_of_mem i hj)) fun k hk => ?_
          have hi := hopened i (List.mem_cons_self ..)
          rw [getElem?_insert_of_ne (by omega), hlater k hk]
      · exact ih hearlier hlater

/-- The entry of an opening parenthesis is the offset behind what it encloses, and there is none if
it encloses all that follows. -/
theorem getElem?_closings (a v : List Char) :
    (closings (a ++ '(' :: v))[byteLength a + 1]? =
      if enclosed 0 v = v then none else some (byteLength a + 1 + byteLength (enclosed 0 v)) := by
  obtain ⟨opened, found, hopened, hfound, hrest⟩ :=
    @exists_closingsFrom_append 0 [] {} (by simp) (by simp) a
  rw [Nat.zero_add] at hopened hfound hrest
  have hcons : closingsFrom (byteLength a) opened found ('(' :: v) =
      closingsFrom (byteLength a + 1) ([] ++ (byteLength a + 1) :: opened) found v := rfl
  rw [closings, hrest, hcons]
  refine getElem?_closingsFrom (by simp) (fun i hi => ?_) (Nat.le_refl _) ?_ v
  · have := hopened i hi
    omega
  · exact hfound _ (by omega)

/-! ### Numbers of characters -/

private theorem getElem?_charsBeforeFrom (n : Nat) (a b : List Char) :
    (n :: charsBeforeFrom n (a ++ b))[byteLength a]? = some (n + a.length) := by
  induction a generalizing n with
  | nil => rfl
  | cons c a ih =>
    obtain ⟨k, hk⟩ := Nat.exists_eq_add_one_of_ne_zero (Nat.ne_of_gt c.utf8Size_pos)
    -- the number after the character stands for its last byte
    have hsplit : n :: charsBeforeFrom n (c :: a ++ b) =
        (n :: List.replicate k (n + 1)) ++ ((n + 1) :: charsBeforeFrom (n + 1) (a ++ b)) := by
      rw [List.cons_append, charsBeforeFrom, hk, List.replicate_succ', List.append_assoc]
      rfl
    have hlength : (n :: List.replicate k (n + 1)).length = c.utf8Size := by
      rw [List.length_cons, List.length_replicate, hk]
    rw [hsplit, byteLength_cons, List.getElem?_append_right (by omega), hlength,
      Nat.add_sub_cancel_left, ih, List.length_cons]
    congr 1
    omega

/-- As many characters stand before an offset as the text in front of it has. -/
theorem getElem?_charsBefore (a b : List Char) :
    (charsBefore (a ++ b))[byteLength a]? = some a.length := by
  rw [charsBefore, List.getElem?_toArray, getElem?_charsBeforeFrom, Nat.zero_add]

end SqlReview.Rule

import SqlReview.Proofs.Query.LoosenedNames
import SqlReview.Proofs.Query.NestedSelect

/-!
# Items before a parenthesis

The items of the lists of tables when a space is put before an opening parenthesis. Without it a
`FROM` right before the parenthesis opens no list, and the first word of an item that the
parenthesis follows holds the parenthesis and names no table. With it the list is opened, and the
item has the name that stands before the space. Nothing else changes the names of items.
-/

namespace SqlReview.Query

open SqlReview.Text SqlReview.Lexical SqlReview.Search

variable {u z q : List Char}

/-! ### Lists that begin in a text -/

/-- Whether a text ends with a whole word `FROM`, given whether a name character stands before
it. -/
def endsWithFrom (inName : Bool) : List Char → Bool
  | [] => false
  | c :: s => (!inName && afterKeyword? "FROM" (c :: s) == some []) || endsWithFrom (isNameChar c) s

private theorem trimStart_trimStart_append (u z : List Char) :
    trimStart (trimStart u ++ z) = trimStart (u ++ z) := by
  obtain ⟨v, hv, hsplit⟩ := exists_trimStart u
  conv_rhs => rw [hsplit, List.append_assoc, trimStart_append hv]

private theorem map_afterFrom?_append (hz : startsInName z = false) (s x : List Char) :
    (afterFrom? (s ++ z)).map trimStart = some x ↔
      (∃ y, (afterFrom? s).map trimStart = some y ∧ trimStart (y ++ z) = x) ∨
        startsBlank z = true ∧ afterKeyword? "FROM" s = some [] ∧ trimStart z = x := by
  rw [afterFrom?, afterFrom?, afterKeyword?_append_of_startsInName (by decide) hz]
  cases afterKeyword? "FROM" s with
  | none => simp
  | some rest =>
    cases rest with
    | nil =>
      have hnil : startsBlank [] = false := rfl
      simp [Option.filter_some, hnil]
    | cons c rest =>
      have hstart : startsBlank (c :: rest ++ z) = startsBlank (c :: rest) := rfl
      rw [Option.map_some, Option.filter_some, Option.filter_some, hstart]
      split
      · simp [trimStart_trimStart_append]
      · simp

/-- The lists that begin in a text when text is added to it: those that begin in the text, the one
whose `FROM` ends the text, and those that begin in what is added. -/
theorem mem_listTexts_append (hz : startsInName z = false) (inName : Bool) (s x : List Char) :
    x ∈ listTexts inName (s ++ z) ↔ (∃ y ∈ listTexts inName s, trimStart (y ++ z) = x) ∨
      (startsBlank z = true ∧ endsWithFrom inName s = true ∧ trimStart z = x) ∨
        x ∈ listTexts false z := by
  induction s generalizing inName with
  | nil =>
    rw [List.nil_append, listTexts_inName hz]
    simp [listTexts, endsWithFrom]
  | cons c s ih =>
    have hrest := ih (isNameChar c)
    have hhead := map_afterFrom?_append hz (c :: s) x
    rw [List.cons_append] at hhead ⊢
    rw [listTexts, listTexts, endsWithFrom, List.mem_append, hrest]
    cases inName with
    | true => simp
    | false =>
      simp only [Bool.false_eq_true, if_false, Option.mem_toList, hhead, List.mem_append,
        Bool.not_false, Bool.true_and, Bool.or_eq_true, beq_iff_eq, or_and_right, and_or_left,
        exists_or, or_assoc]
      exact or_congr_right or_left_comm

/-! ### Open lists -/

/-- Whether the list that a text begins with goes on behind the text. -/
def isOpenList (u : List Char) : Bool :=
  (topLevelFrom listStops 0 false u).2.isEmpty

/-- The parts of a list that ends in a text do not depend on what follows the text. -/
theorem listParts_append_of_ended (hz : startsInName z = false) {depth : Nat} {inName : Bool}
    (h : (topLevelFrom listStops depth inName u).2 ≠ []) :
    listParts depth inName (u ++ z) = listParts depth inName u := by
  induction u generalizing depth inName with
  | nil => exact absurd rfl h
  | cons c u ih =>
    have hends := endsBefore_append isNameChar_of_mem_listStops hz depth inName c u
    rw [topLevelFrom] at h
    rw [List.cons_append]
    cases hc : endsBefore listStops depth inName c u with
    | true => rw [listParts_of_ends hc, listParts_of_ends (hends.trans hc)]
    | false =>
      rw [hc, if_neg Bool.false_ne_true] at h
      by_cases hcomma : c = ',' ∧ depth = 0
      · obtain ⟨rfl, rfl⟩ := hcomma
        have hrest : (topLevelFrom listStops 0 false u).2 ≠ [] := h
        rw [listParts_comma, listParts_comma, ih hrest]
      · rw [listParts_cons hc hcomma, listParts_cons (hends.trans hc) hcomma, ih h]

/-- The last part of a list that goes on behind a text goes on there. -/
theorem exists_listParts_append {depth : Nat} {inName : Bool}
    (h : (topLevelFrom listStops depth inName u).2 = []) :
    ∃ parts x d, listParts depth inName u = parts ++ [x] ∧ ∀ z, startsInName z = false →
      listParts depth inName (u ++ z) = parts ++ prepend x (listParts d false z) := by
  induction u generalizing depth inName with
  | nil =>
    refine ⟨[], [], depth, rfl, ?_⟩
    intro z hz
    rw [List.nil_append, List.nil_append, listParts_inName hz,
      prepend_nil (listParts_ne_nil depth false z)]
  | cons c u ih =>
    rw [topLevelFrom] at h
    cases hc : endsBefore listStops depth inName c u with
    | true =>
      rw [hc] at h
      exact absurd h (List.cons_ne_nil c u)
    | false =>
      rw [hc, if_neg Bool.false_ne_true] at h
      by_cases hcomma : c = ',' ∧ depth = 0
      · obtain ⟨rfl, rfl⟩ := hcomma
        have hrest : (topLevelFrom listStops 0 false u).2 = [] := h
        obtain ⟨parts, x, d, hparts, happend⟩ := ih hrest
        refine ⟨[] :: parts, x, d, by rw [listParts_comma, hparts, List.cons_append], ?_⟩
        intro z hz
        rw [List.cons_append, listParts_comma, happend z hz, List.cons_append]
      · obtain ⟨parts, x, d, hparts, happend⟩ := ih h
        have hcons : ∀ z, startsInName z = false → listParts depth inName (c :: u ++ z) =
            prepend [c] (parts ++ prepend x (listParts d false z)) := by
          intro z hz
          have hends := endsBefore_append isNameChar_of_mem_listStops hz depth inName c u
          rw [List.cons_append, listParts_cons (hends.trans hc) hcomma, happend z hz]
        rw [listParts_cons hc hcomma, hparts]
        cases parts with
        | nil =>
          refine ⟨[], c :: x, d, rfl, ?_⟩
          intro z hz
          rw [hcons z hz, List.nil_append, prepend_prepend]
          rfl
        | cons part parts =>
          refine ⟨(c :: part) :: parts, x, d, rfl, ?_⟩
          intro z hz
          rw [hcons z hz]
          rfl

/-! ### The item before the parenthesis -/

/-- The name of the item that a text ends with, the text being a list of tables that goes on behind
it with a parenthesis and `q` to two items or more. -/
def endItem? (u q : List Char) : Option (List Char) :=
  if isOpenList u && !(listItems (u ++ '(' :: q)).isEmpty then
    (listParts 0 false u).getLast?.bind partName?
  else none

private theorem partName?_of_mem {part w : List Char} (hword : firstWord? part = some w)
    (hw : '(' ∈ w) : partName? part = none := by
  rw [partName?, hword, Option.bind_some, tableName?, if_pos (List.contains_iff_mem.mpr hw)]

/-- The first word of a text that is not blank and goes on. -/
theorem firstWord?_append_eq {x : List Char} (hx : trimStart x ≠ []) (r : List Char) :
    firstWord? (x ++ r) = some ((trimStart x ++ r).takeWhile (!isBlank ·)) := by
  have htrim : trimStart (x ++ r) = trimStart x ++ r := by
    rw [trimStart, List.dropWhile_append, if_neg (by simpa [trimStart] using hx)]
    rfl
  have hstart := startsBlank_trimStart x
  obtain ⟨c, w, hcons⟩ := List.exists_cons_of_ne_nil hx
  rw [hcons] at hstart
  have hc : isBlank c = false := hstart
  rw [firstWord?, htrim, hcons, List.cons_append, List.takeWhile_cons_of_pos (by simp [hc])]

private theorem takeWhile_solid_opening (y : List Char) :
    ('(' :: y).takeWhile (!isBlank ·) = '(' :: y.takeWhile (!isBlank ·) :=
  List.takeWhile_cons_of_pos (by decide)

/-- A part that begins with a parenthesis has no name. -/
theorem partName?_blanks_opening {x : List Char} (hx : trimStart x = []) (y : List Char) :
    partName? (x ++ '(' :: y) = none := by
  have htrim : trimStart (x ++ '(' :: y) = '(' :: y := by
    rw [trimStart_append (trimStart_eq_nil_iff.mp hx)]
    rfl
  have hword : firstWord? (x ++ '(' :: y) = some ('(' :: y.takeWhile (!isBlank ·)) := by
    rw [firstWord?, htrim, takeWhile_solid_opening]
  exact partName?_of_mem hword (List.mem_cons_self ..)

/-- The first word of a text that is not blank ends before a blank at the latest. -/
theorem firstWord?_append_blank {c : Char} (hc : isBlank c = true) {x : List Char}
    (hx : trimStart x ≠ []) (r : List Char) : firstWord? (x ++ c :: r) = firstWord? x := by
  have hend : (c :: r).takeWhile (!isBlank ·) = [] := List.takeWhile_cons_of_neg (by simp [hc])
  have hword := firstWord?_append_eq hx []
  rw [List.append_nil, List.append_nil] at hword
  rw [hword, firstWord?_append_eq hx, List.takeWhile_append, hend, List.append_nil]
  split
  · next hall => rw [(List.takeWhile_sublist _).eq_of_length hall]
  · rfl

private theorem partName?_space (x y : List Char) :
    partName? (x ++ ' ' :: '(' :: y) = partName? x := by
  by_cases hx : trimStart x = []
  · have hspace : x ++ ' ' :: '(' :: y = (x ++ [' ']) ++ '(' :: y := by simp
    have hblank : trimStart (x ++ [' ']) = [] := by
      rw [trimStart_append (trimStart_eq_nil_iff.mp hx)]
      rfl
    rw [hspace, partName?_blanks_opening hblank, partName?, firstWord?, hx]
    rfl
  · rw [partName?, partName?, firstWord?_append_blank (by decide) hx]

/-- A part has a name of its own when it has one where a parenthesis follows. -/
theorem partName?_opening {x y name : List Char} (h : partName? (x ++ '(' :: y) = some name) :
    partName? x = some name := by
  by_cases hx : trimStart x = []
  · rw [partName?_blanks_opening hx] at h
    exact absurd h (by simp)
  · have hword := firstWord?_append_eq hx ('(' :: y)
    rw [List.takeWhile_append, takeWhile_solid_opening] at hword
    split at hword
    · rw [partName?_of_mem hword (List.mem_append_right _ (List.mem_cons_self ..))] at h
      exact absurd h (by simp)
    · have hown := firstWord?_append_eq hx []
      rw [List.append_nil, List.append_nil] at hown
      rw [partName?, hword] at h
      rw [partName?, hown, h]

/-! ### Items -/

private theorem startsInName_space (s : List Char) : startsInName (' ' :: s) = false :=
  (by decide : isNameChar ' ' = false)

private theorem listParts_opening (depth : Nat) (q : List Char) :
    listParts depth false ('(' :: q) = prepend ['('] (listParts (depth + 1) false q) := by
  have hends : endsBefore listStops depth false '(' q = false := by
    have hname : isNameChar '(' = false := by decide
    rw [endsBefore, hname]
    simp
  have hdepth : depthAfter depth '(' = depth + 1 := rfl
  have hname : isNameChar '(' = false := by decide
  rw [listParts_cons hends fun h => absurd h.1 (by decide), hdepth, hname]

/-- A character that is no name character and no mark of a list belongs to a part. -/
theorem listParts_idle {c : Char} (hname : isNameChar c = false)
    (hc : c ≠ '(' ∧ c ≠ ')' ∧ c ≠ ';' ∧ c ≠ ',') (depth : Nat) (s : List Char) :
    listParts depth false (c :: s) = prepend [c] (listParts depth false s) := by
  obtain ⟨hopen, hclose, hstop, hcomma⟩ := hc
  have hends : endsBefore listStops depth false c s = false := by
    rw [endsBefore, hname]
    simp [hclose, hstop]
  have hdepth : depthAfter depth c = depth := by simp [depthAfter, hopen, hclose]
  rw [listParts_cons hends fun h => hcomma h.1, hdepth, hname]

/-- What follows a list that has ended makes no difference to its items. -/
theorem listItems_append_of_ended (hz : startsInName z = false) (h : isOpenList u = false) :
    listItems (u ++ z) = listItems u := by
  have hended : (topLevelFrom listStops 0 false u).2 ≠ [] := by
    intro hnil
    rw [isOpenList, hnil] at h
    exact absurd h (by decide)
  rw [listItems_eq, listItems_eq, listParts_append_of_ended hz hended]

/-- The parts of a list that goes on with a parenthesis, without the space and with it. -/
theorem exists_listParts_opening (h : isOpenList u = true) (q : List Char) :
    ∃ before x y after, listParts 0 false u = before ++ [x] ∧
      listParts 0 false (u ++ '(' :: q) = before ++ (x ++ '(' :: y) :: after ∧
      listParts 0 false (u ++ ' ' :: '(' :: q) = before ++ (x ++ ' ' :: '(' :: y) :: after := by
  obtain ⟨before, x, d, hparts, happend⟩ := exists_listParts_append (List.isEmpty_iff.mp h)
  obtain ⟨y, after, hrest⟩ := List.exists_cons_of_ne_nil (listParts_ne_nil (d + 1) false q)
  refine ⟨before, x, y, after, hparts, ?_, ?_⟩
  · rw [happend _ (startsInName_opening q), listParts_opening, hrest]
    rfl
  · rw [happend _ (startsInName_space _), listParts_idle (by decide) (by decide),
      listParts_opening, hrest]
    rfl

/-- With the space an item that ends before the parenthesis has the name that it has alone. -/
theorem mem_listItems_space (hu : startsBlank u = false) (q name : List Char) :
    name ∈ (listItems (trimStart (u ++ ' ' :: '(' :: q))).filterMap partName? ↔
      name ∈ (listItems (u ++ '(' :: q)).filterMap partName? ∨ endItem? u q = some name := by
  cases u with
  | nil =>
    have htrim : trimStart (' ' :: '(' :: q) = '(' :: q := rfl
    have hend : endItem? [] q = none := by
      rw [endItem?]
      split
      · rfl
      · rfl
    rw [List.nil_append, List.nil_append, htrim, hend]
    simp
  | cons c u =>
    have htrim : trimStart (c :: u ++ ' ' :: '(' :: q) = c :: u ++ ' ' :: '(' :: q :=
      trimStart_of_startsBlank hu
    rw [htrim, endItem?]
    cases hopen : isOpenList (c :: u) with
    | false =>
      rw [listItems_append_of_ended (startsInName_space _) hopen,
        listItems_append_of_ended (startsInName_opening q) hopen]
      simp
    | true =>
      obtain ⟨before, x, y, after, hparts, htight, hspaced⟩ := exists_listParts_opening hopen q
      rw [listItems_eq, listItems_eq, htight, hspaced, hparts, severalParts, severalParts]
      have hlength : (before ++ (x ++ ' ' :: '(' :: y) :: after).length =
          (before ++ (x ++ '(' :: y) :: after).length := by simp
      rw [hlength]
      split
      · have hlast : (before ++ [x]).getLast?.bind partName? = partName? x := by simp
        have hnonempty : (before ++ (x ++ '(' :: y) :: after).isEmpty = false := by simp
        rw [hlast, hnonempty, Bool.not_false, Bool.and_self, if_pos rfl]
        simp only [List.mem_filterMap, List.mem_append, List.mem_cons, or_and_right, exists_or,
          exists_eq_left, partName?_space]
        constructor
        · rintro (h | h | h)
          · exact .inl (.inl h)
          · exact .inr h
          · exact .inl (.inr (.inr h))
        · rintro ((h | h | h) | h)
          · exact .inl h
          · exact .inr (.inl (partName?_opening h))
          · exact .inr (.inr h)
          · exact .inr (.inl h)
      · simp

/-- The names of the items of all lists are those of the items of each. -/
theorem mem_itemsByList {s name : List Char} : name ∈ (itemsByList s).filterMap partName? ↔
    ∃ x ∈ listTexts false s, name ∈ (listItems x).filterMap partName? := by
  rw [itemsByList, List.filterMap_flatMap, List.mem_flatMap]

/-- The text of a list does not begin with a blank. -/
theorem startsBlank_of_mem_listTexts {inName : Bool} {s x : List Char}
    (h : x ∈ listTexts inName s) : startsBlank x = false := by
  induction s generalizing inName with
  | nil => exact absurd h List.not_mem_nil
  | cons c s ih =>
    rw [listTexts] at h
    rcases List.mem_append.mp h with h | h
    · split at h
      · exact absurd h List.not_mem_nil
      · obtain ⟨y, -, rfl⟩ := Option.map_eq_some_iff.mp (Option.mem_toList.mp h)
        exact startsBlank_trimStart y
    · exact ih h

/-- The names that a space between `p` and a parenthesis before `q` adds to the names of items. -/
def gainedNames (p q : List Char) : List (List Char) :=
  (if endsWithFrom false p then (listItems ('(' :: q)).filterMap partName? else []) ++
    (listTexts false p).filterMap (endItem? · q)

/-- The texts behind `FROM` when a space stands between `p` and a parenthesis before `q`. -/
theorem mem_listTexts_space (p q x : List Char) :
    x ∈ listTexts false (p ++ ' ' :: '(' :: q) ↔
      (∃ y ∈ listTexts false p, trimStart (y ++ ' ' :: '(' :: q) = x) ∨
        (endsWithFrom false p = true ∧ '(' :: q = x) ∨ x ∈ listTexts false q := by
  have hblank : startsBlank (' ' :: '(' :: q) = true := rfl
  have htrim : trimStart (' ' :: '(' :: q) = '(' :: q := rfl
  rw [mem_listTexts_append (startsInName_space _), hblank, htrim, listTexts_mark (by decide),
    listTexts_mark (by decide)]
  simp only [true_and]

private theorem mem_listTexts_opening (p q x : List Char) :
    x ∈ listTexts false (p ++ '(' :: q) ↔
      (∃ y ∈ listTexts false p, y ++ '(' :: q = x) ∨ x ∈ listTexts false q := by
  have htrim : ∀ y ∈ listTexts false p, trimStart (y ++ '(' :: q) = y ++ '(' :: q := by
    intro y hy
    have hstart := startsBlank_of_mem_listTexts hy
    cases y with
    | nil => rfl
    | cons c y => exact trimStart_of_startsBlank hstart
  have hold : (∃ y ∈ listTexts false p, trimStart (y ++ '(' :: q) = x) ↔
      ∃ y ∈ listTexts false p, y ++ '(' :: q = x :=
    exists_congr fun y => and_congr_right fun hy => by rw [htrim y hy]
  rw [mem_listTexts_append (startsInName_opening q), Loosened.startsBlank_opening,
    listTexts_mark (by decide), hold]
  simp

private theorem mem_gainedNames_iff {p q name : List Char} : name ∈ gainedNames p q ↔
    (endsWithFrom false p = true ∧ name ∈ (listItems ('(' :: q)).filterMap partName?) ∨
      ∃ y ∈ listTexts false p, endItem? y q = some name := by
  rw [gainedNames, List.mem_append, List.mem_filterMap]
  cases endsWithFrom false p <;> simp

/-- The names of items with the space are those without it and the names that are gained. -/
theorem mem_itemsByList_space (p q name : List Char) :
    name ∈ (itemsByList (p ++ ' ' :: '(' :: q)).filterMap partName? ↔
      name ∈ (itemsByList (p ++ '(' :: q)).filterMap partName? ∨ name ∈ gainedNames p q := by
  rw [mem_itemsByList, mem_itemsByList, mem_gainedNames_iff]
  simp only [mem_listTexts_space, mem_listTexts_opening]
  constructor
  · rintro ⟨x, ⟨y, hy, rfl⟩ | ⟨hfrom, rfl⟩ | hx, hname⟩
    · rcases (mem_listItems_space (startsBlank_of_mem_listTexts hy) q name).mp hname with h | h
      · exact .inl ⟨_, .inl ⟨y, hy, rfl⟩, h⟩
      · exact .inr (.inr ⟨y, hy, h⟩)
    · exact .inr (.inl ⟨hfrom, hname⟩)
    · exact .inl ⟨x, .inr hx, hname⟩
  · rintro (⟨x, ⟨y, hy, rfl⟩ | hx, hname⟩ | ⟨hfrom, hname⟩ | ⟨y, hy, hname⟩)
    · exact ⟨_, .inl ⟨y, hy, rfl⟩,
        (mem_listItems_space (startsBlank_of_mem_listTexts hy) q name).mpr (.inl hname)⟩
    · exact ⟨x, .inr (.inr hx), hname⟩
    · exact ⟨_, .inr (.inl ⟨hfrom, rfl⟩), hname⟩
    · exact ⟨_, .inl ⟨y, hy, rfl⟩,
        (mem_listItems_space (startsBlank_of_mem_listTexts hy) q name).mpr (.inr hname)⟩

end SqlReview.Query

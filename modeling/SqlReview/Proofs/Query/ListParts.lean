import SqlReview.Proofs.Query.ListItems

/-!
# The parts of a list

What begins a list and what its parts are, for a text that is read word by word: a word that is no
`FROM` begins no list, a word that is no keyword ends none, and text that closes the parentheses it
opens belongs to one part.
-/

namespace SqlReview.Query

open SqlReview.Text SqlReview.Lexical

variable {w v s t : List Char}

/-! ### Where lists begin -/

/-- What follows a whole word, if the word is the keyword. -/
theorem afterKeyword?_word {keyword : String} (hk : ∀ k ∈ keyword.toList, isNameChar k = true)
    (hw : ∀ c ∈ w, isNameChar c = true) (hs : startsInName s = false) :
    afterKeyword? keyword (w ++ s) = if sameText w keyword.toList then some s else none := by
  have hstarts := startsWith_word hk hw hs
  rw [startsWith] at hstarts
  cases hafter : afterKeyword? keyword (w ++ s) with
  | none =>
    rw [hafter] at hstarts
    rw [← hstarts]
    rfl
  | some rest =>
    rw [hafter] at hstarts
    have hsame : sameText w keyword.toList = true := hstarts.symm
    have hdrop := (Option.filter_eq_some_iff.mp hafter).1
    obtain ⟨u, hu, -⟩ := Checked.exists_letters hdrop
    have hlength := dropLetters?_length hdrop
    have hletters := congrArg List.length (sameText_iff.mp hsame)
    rw [length_lowerAscii, length_lowerAscii] at hletters
    rw [List.length_append] at hlength
    have hrest : rest = s := List.append_inj_right' hu.symm (by omega)
    rw [hsame, if_pos rfl, hrest]

/-- Where no name begins, it does not matter whether one ends. -/
theorem listTexts_inName (hs : startsInName s = false) (inName : Bool) :
    listTexts inName s = listTexts false s := by
  cases s with
  | nil => rfl
  | cons c s =>
    have hnone : afterFrom? (c :: s) = none := by
      rw [afterFrom?, afterKeyword?_from_eq_none hs]
      rfl
    rw [listTexts, listTexts, hnone]
    simp

/-- A list begins behind a character that is in no name where it begins behind nothing. -/
theorem listTexts_mark {c : Char} (hc : isNameChar c = false) (inName : Bool) (s : List Char) :
    listTexts inName (c :: s) = listTexts false s := by
  have hname : startsInName (c :: s) = false := hc
  rw [listTexts_inName hname, listTexts, afterFrom?, afterKeyword?_from_eq_none hc, hc]
  rfl

/-- Blanks before a text begin no list. -/
theorem listTexts_blanks (hv : isBlankText v = true) (s : List Char) :
    listTexts false (v ++ s) = listTexts false s := by
  induction v with
  | nil => rfl
  | cons c v ih =>
    obtain ⟨hc, hv⟩ : isBlank c = true ∧ isBlankText v = true := by simpa [isBlankText] using hv
    rw [List.cons_append, listTexts_mark (isNameChar_of_isBlank hc), ih hv]

private theorem listTexts_inside (hw : ∀ c ∈ w, isNameChar c = true) (s : List Char) :
    listTexts true (w ++ s) = listTexts true s := by
  induction w with
  | nil => rfl
  | cons c w ih =>
    rw [List.cons_append, listTexts, hw c (List.mem_cons_self ..), if_pos rfl, List.nil_append,
      ih fun d hd => hw d (List.mem_cons_of_mem c hd)]

/-- A list begins at a word when the word is a `FROM` and a gap follows. -/
theorem listTexts_word (hne : w ≠ []) (hw : ∀ c ∈ w, isNameChar c = true)
    (hs : startsInName s = false) :
    listTexts false (w ++ s) =
      (if sameText w "FROM".toList && startsBlank s then [trimStart s] else []) ++
        listTexts false s := by
  obtain ⟨c, w, rfl⟩ := List.exists_cons_of_ne_nil hne
  have hfrom : afterFrom? (c :: w ++ s) =
      if sameText (c :: w) "FROM".toList && startsBlank s then some s else none := by
    rw [afterFrom?, afterKeyword?_word (by decide) hw hs]
    cases sameText (c :: w) "FROM".toList with
    | false => rfl
    | true =>
      rw [if_pos rfl, Option.filter_some, Bool.true_and]
  rw [List.cons_append] at hfrom ⊢
  rw [listTexts, hfrom, hw c (List.mem_cons_self ..),
    listTexts_inside (fun d hd => hw d (List.mem_cons_of_mem c hd)), listTexts_inName hs,
    if_neg Bool.false_ne_true]
  split <;> rfl

/-! ### Parts -/

/-- The parts of the list that a text begins with, with `depth` parentheses open. -/
def listParts (depth : Nat) (inName : Bool) (s : List Char) : List (List Char) :=
  splitTopLevelFrom ',' depth (topLevelFrom listStops depth inName s).1

/-- The items of a list are its parts when there are several. -/
theorem listItems_eq (s : List Char) : listItems s = severalParts (listParts 0 false s) := rfl

variable {depth : Nat} {inName : Bool} {c : Char}

/-- Where a list ends its last part ends. -/
theorem listParts_of_ends (h : endsBefore listStops depth inName c s = true) :
    listParts depth inName (c :: s) = [[]] := by
  rw [listParts, topLevelFrom, if_pos h]
  rfl

/-- A comma ends a part and begins the next one. -/
theorem listParts_comma (inName : Bool) (s : List Char) :
    listParts 0 inName (',' :: s) = [] :: listParts 0 false s := by
  have hends : endsBefore listStops 0 inName ',' s = false := rfl
  rw [listParts, topLevelFrom, hends]
  exact splitTopLevelFrom_separator (by decide) _

/-- A character that neither ends the list nor a part belongs to the part. -/
theorem listParts_cons (hends : endsBefore listStops depth inName c s = false)
    (hcomma : ¬(c = ',' ∧ depth = 0)) :
    listParts depth inName (c :: s) =
      prepend [c] (listParts (depthAfter depth c) (isNameChar c) s) := by
  rw [listParts, topLevelFrom, hends]
  exact Checked.splitTopLevelFrom_cons hcomma _

/-- A list has a part, if only an empty one. -/
theorem listParts_ne_nil (depth : Nat) (inName : Bool) (s : List Char) :
    listParts depth inName s ≠ [] :=
  Checked.splitTopLevelFrom_ne_nil ',' depth _

/-- Where no name begins, it does not matter whether one ends. -/
theorem listParts_inName (hs : startsInName s = false) (depth : Nat) (inName : Bool) :
    listParts depth inName s = listParts depth false s := by
  cases s with
  | nil => rfl
  | cons c s =>
    have hname : isNameChar c = false := hs
    have hends : endsBefore listStops depth inName c s = endsBefore listStops depth false c s := by
      simp only [endsBefore, hname, Bool.false_and]
    rw [listParts, listParts, topLevelFrom, topLevelFrom, hends]

/-- In parentheses it does not matter whether a name ends. -/
theorem listParts_deep (depth : Nat) (inName : Bool) (s : List Char) :
    listParts (depth + 1) inName s = listParts (depth + 1) false s := by
  cases s with
  | nil => rfl
  | cons c s => rfl

/-! ### Text in parentheses -/

/-- Whether a text in parentheses belongs to one part. -/
def Balanced (x : List Char) : Prop :=
  ∀ depth s, listParts (depth + 1) false (x ++ s) = prepend x (listParts (depth + 1) false s)

/-- The empty text is balanced. -/
theorem balanced_nil : Balanced [] := fun _ s => (prepend_nil (listParts_ne_nil _ _ s)).symm

/-- Two balanced texts one after the other are balanced. -/
theorem Balanced.append {x y : List Char} (hx : Balanced x) (hy : Balanced y) :
    Balanced (x ++ y) := by
  intro depth s
  rw [List.append_assoc, hx, hy, prepend_prepend]

/-- In parentheses a character belongs to the part. -/
theorem listParts_deep_cons (depth : Nat) (c : Char) (s : List Char) :
    listParts (depth + 1) false (c :: s) =
      prepend [c] (listParts (depthAfter (depth + 1) c) (isNameChar c) s) :=
  listParts_cons rfl fun h => Nat.succ_ne_zero depth h.2

/-- Text without parentheses. -/
theorem balanced_of_forall {x : List Char} (h : ∀ c ∈ x, c ≠ '(' ∧ c ≠ ')') : Balanced x := by
  intro depth s
  induction x with
  | nil => exact balanced_nil depth s
  | cons c x ih =>
    obtain ⟨hopen, hclose⟩ := h c (List.mem_cons_self ..)
    have hdepth : depthAfter (depth + 1) c = depth + 1 := by
      simp [depthAfter, hopen, hclose]
    rw [List.cons_append, listParts_deep_cons, hdepth, listParts_deep,
      ih fun d hd => h d (List.mem_cons_of_mem c hd), prepend_prepend]
    rfl

/-- A balanced text in parentheses is balanced. -/
theorem Balanced.parens {x : List Char} (h : Balanced x) : Balanced ('(' :: (x ++ [')'])) := by
  intro depth s
  have hopen : depthAfter (depth + 1) '(' = depth + 1 + 1 := rfl
  have hclose : depthAfter (depth + 1 + 1) ')' = depth + 1 := rfl
  rw [List.cons_append, List.append_assoc, listParts_deep_cons, hopen, listParts_deep, h,
    List.singleton_append, listParts_deep_cons, hclose, listParts_deep, prepend_prepend,
    prepend_prepend]
  rfl

/-- Outside of parentheses, text in parentheses belongs to the part. -/
theorem Balanced.listParts_parens {x : List Char} (h : Balanced x) (inName : Bool)
    (s : List Char) :
    listParts 0 inName ('(' :: (x ++ ')' :: s)) =
      prepend ('(' :: (x ++ [')'])) (listParts 0 false s) := by
  have hopen : depthAfter 0 '(' = 0 + 1 := rfl
  have hclose : depthAfter (0 + 1) ')' = 0 := rfl
  have hname : isNameChar ')' = false := by decide
  rw [listParts_cons rfl (by decide), hopen, listParts_deep, h, listParts_deep_cons, hclose, hname,
    prepend_prepend, prepend_prepend]
  rfl

/-! ### Text outside of parentheses -/

/-- Marks that end a list or a part or lead into parentheses. -/
def listMarks : List Char := ['(', ')', ',', ';']

/-- Outside of parentheses a character that is no mark and begins no keyword belongs to the
part. -/
theorem listParts_plain_cons (hmarks : c ∉ listMarks)
    (hword : (isNameChar c && !inName && startsWithAny listStops (c :: s)) = false) :
    listParts 0 inName (c :: s) = prepend [c] (listParts 0 (isNameChar c) s) := by
  simp only [listMarks, List.mem_cons, List.not_mem_nil, or_false, not_or] at hmarks
  obtain ⟨hopen, hclose, hcomma, hsemicolon⟩ := hmarks
  have hends : endsBefore listStops 0 inName c s = false := by
    rw [endsBefore, hword]
    simp [hclose, hsemicolon]
  have hdepth : depthAfter 0 c = 0 := by
    simp [depthAfter, hopen]
  rw [listParts_cons hends fun h => hcomma h.1, hdepth]

/-- Blanks before a list belong to its first part. -/
theorem listParts_blanks (hv : isBlankText v = true) (s : List Char) :
    listParts 0 false (v ++ s) = prepend v (listParts 0 false s) := by
  induction v with
  | nil => exact (prepend_nil (listParts_ne_nil 0 false s)).symm
  | cons c v ih =>
    obtain ⟨hc, hv⟩ : isBlank c = true ∧ isBlankText v = true := by simpa [isBlankText] using hv
    have hname := isNameChar_of_isBlank hc
    have hmarks : c ∉ listMarks := by
      intro hmark
      rw [(by decide : ∀ m ∈ listMarks, isBlank m = false) c hmark] at hc
      exact Bool.false_ne_true hc
    rw [List.cons_append, listParts_plain_cons hmarks (by rw [hname]; rfl), hname, ih hv,
      prepend_prepend]
    rfl

private theorem not_mem_listMarks (hc : isNameChar c = true) : c ∉ listMarks := by
  intro hmark
  rw [(by decide : ∀ m ∈ listMarks, isNameChar m = false) c hmark] at hc
  exact Bool.false_ne_true hc

private theorem listParts_inside (hw : ∀ c ∈ w, isNameChar c = true) (s : List Char) :
    listParts 0 true (w ++ s) = prepend w (listParts 0 true s) := by
  induction w with
  | nil => exact (prepend_nil (listParts_ne_nil 0 true s)).symm
  | cons c w ih =>
    have hc := hw c (List.mem_cons_self ..)
    have hword : (isNameChar c && !true && startsWithAny listStops (c :: (w ++ s))) = false := by
      rw [Bool.not_true, Bool.and_false, Bool.false_and]
    rw [List.cons_append, listParts_plain_cons (not_mem_listMarks hc) hword, hc,
      ih fun d hd => hw d (List.mem_cons_of_mem c hd), prepend_prepend]
    rfl

/-- The keywords that end a list are words. -/
theorem isNameChar_of_mem_listStops : ∀ k ∈ listStops, ∀ c ∈ k.toList, isNameChar c = true := by
  decide +kernel

/-- A word that is no keyword belongs to the part. -/
theorem listParts_word (hw : ∀ c ∈ w, isNameChar c = true)
    (hstops : ∀ k ∈ listStops, sameText w k.toList = false) (hs : startsInName s = false) :
    listParts 0 false (w ++ s) = prepend w (listParts 0 false s) := by
  cases w with
  | nil => exact (prepend_nil (listParts_ne_nil 0 false s)).symm
  | cons c w =>
    have hc := hw c (List.mem_cons_self ..)
    have hkeywords : startsWithAny listStops (c :: (w ++ s)) = false := by
      rw [startsWithAny, List.any_eq_false]
      intro k hk
      rw [← List.cons_append, startsWith_word (isNameChar_of_mem_listStops k hk) hw hs, hstops k hk]
      exact Bool.false_ne_true
    have hword : (isNameChar c && !false && startsWithAny listStops (c :: (w ++ s))) = false := by
      rw [hkeywords, Bool.and_false]
    rw [List.cons_append, listParts_plain_cons (not_mem_listMarks hc) hword, hc,
      listParts_inside fun d hd => hw d (List.mem_cons_of_mem c hd), listParts_inName hs,
      prepend_prepend]
    rfl

end SqlReview.Query

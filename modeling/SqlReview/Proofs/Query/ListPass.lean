import SqlReview.Proofs.Checked.FromList

/-!
# The pass over lists, list by list

The pass over the lists of tables keeps all lists that are open on a stack, and ends one of them at
a character at most. Here a list is followed by itself from the `FROM` that opens it to its end, and
the pass is seen to find the items of every list that is followed this way. What carries it is that
the open lists belong to different depths, none of them deeper than the pass itself.
-/

namespace SqlReview.Query

open SqlReview.Text

/-- The keywords that end a list of tables. -/
def listStops : List String :=
  "FROM" :: tableKeywords

/-! ### One list -/

/-- A list after a character, which is a comma of it when the list belongs to this depth. -/
def OpenList.after (list : OpenList) (depth offset : Nat) (c : Char) : OpenList :=
  if c == ',' && list.depth == depth then { list with commas := offset :: list.commas } else list

/-- The byte ranges of the items of an open list that is followed to its end by itself. -/
def OpenList.follow (list : OpenList) (depth offset : Nat) (inName : Bool) :
    List Char → List (Nat × Nat)
  | [] => list.ranges offset
  | c :: s =>
    if endsBefore listStops (depth - list.depth) inName c s then list.ranges offset
    else
      (list.after depth offset c).follow (depthAfter depth c) (offset + c.utf8Size) (isNameChar c) s

/-- What follows a `FROM` at the start of a text, when it is a gap and more. -/
def afterFrom? (s : List Char) : Option (List Char) :=
  (afterKeyword? "FROM" s).filter startsBlank

/-- The list that a `FROM` opens at the start of a text. -/
def opened? (depth offset : Nat) (inName : Bool) (s : List Char) : Option OpenList :=
  if inName then none
  else
    (afterFrom? s).map fun rest =>
      { depth, start := offset + 4 + byteLength (rest.takeWhile isBlank) }

/-- The byte ranges of the items of the lists that are opened in a text. -/
def openedRanges (depth offset : Nat) (inName : Bool) : List Char → List (Nat × Nat)
  | [] => []
  | c :: s =>
    (opened? depth offset inName (c :: s)).elim []
        (·.follow (depthAfter depth c) (offset + c.utf8Size) (isNameChar c) s) ++
      openedRanges (depthAfter depth c) (offset + c.utf8Size) (isNameChar c) s

private theorem depth_of_opened? {depth offset : Nat} {inName : Bool} {s : List Char}
    {list : OpenList} (h : opened? depth offset inName s = some list) : list.depth = depth := by
  unfold opened? at h
  split at h
  · exact absurd h (by simp)
  · obtain ⟨rest, -, rfl⟩ := Option.map_eq_some_iff.mp h
    rfl

/-- A list keeps its depth when a character is read. -/
@[simp] theorem depth_after (list : OpenList) (depth offset : Nat) (c : Char) :
    (list.after depth offset c).depth = list.depth := by
  unfold OpenList.after
  split <;> rfl

private theorem follow_cons_of_lt {list : OpenList} {depth : Nat} (h : list.depth < depth)
    (offset : Nat) (inName : Bool) (c : Char) (s : List Char) :
    list.follow depth offset inName (c :: s) =
      list.follow (depthAfter depth c) (offset + c.utf8Size) (isNameChar c) s := by
  have hends : endsBefore listStops (depth - list.depth) inName c s = false := by
    have hdepth : (depth - list.depth == 0) = false := by
      rw [beq_eq_false_iff_ne]
      omega
    rw [endsBefore, hdepth, Bool.false_and]
  have hafter : list.after depth offset c = list := by
    have hdepth : (list.depth == depth) = false := by
      rw [beq_eq_false_iff_ne]
      omega
    rw [OpenList.after, hdepth, Bool.and_false, if_neg Bool.false_ne_true]
  rw [OpenList.follow, hends, if_neg Bool.false_ne_true, hafter]

private theorem le_depthAfter_of_lt {n depth : Nat} (h : n < depth) (c : Char) :
    n ≤ depthAfter depth c := by
  unfold depthAfter
  split
  · omega
  · split <;> omega

/-! ### One step of the pass -/

/-- A word of a name is all that a `FROM` begins with. -/
theorem afterKeyword?_from_eq_none {c : Char} (h : isNameChar c = false) (s : List Char) :
    afterKeyword? "FROM" (c :: s) = none := by
  cases hfrom : afterKeyword? "FROM" (c :: s) with
  | none => rfl
  | some rest =>
    obtain ⟨-, -, hname, -⟩ := Checked.exists_from hfrom
    rw [hname] at h
    exact absurd h (by decide)

private theorem opened?_eq_none {c : Char} (h : isNameChar c = false) (depth offset : Nat)
    (inName : Bool) (s : List Char) : opened? depth offset inName (c :: s) = none := by
  rw [opened?, afterFrom?, afterKeyword?_from_eq_none h]
  split <;> rfl

private theorem isNameChar_of_opened? {depth offset : Nat} {inName : Bool} {c : Char}
    {s : List Char} {list : OpenList} (h : opened? depth offset inName (c :: s) = some list) :
    isNameChar c = true := by
  by_contra hname
  rw [opened?_eq_none (by simpa using hname)] at h
  exact absurd h (by simp)

/-- Blanks take bytes where there are any. -/
theorem byteLength_takeWhile_isBlank_eq_zero {s : List Char} :
    byteLength (s.takeWhile isBlank) = 0 ↔ startsBlank s = false := by
  rw [byteLength_eq_zero_iff]
  cases s with
  | nil => simp [startsBlank]
  | cons c s => by_cases hc : isBlank c = true <;> simp [startsBlank, hc]

private theorem openList_eq (scan : ListScan) (offset : Nat) (rest : List Char) :
    scan.openList offset rest =
      { scan with
        stack := (if startsBlank rest then
            [{ depth := scan.depth, start := offset + byteLength (rest.takeWhile isBlank) }]
          else []) ++ scan.stack } := by
  unfold ListScan.openList
  by_cases h : startsBlank rest = true
  · have hgap : byteLength (rest.takeWhile isBlank) ≠ 0 := by
      rw [Ne, byteLength_takeWhile_isBlank_eq_zero, h]
      decide
    rw [if_neg hgap, if_pos h]
    rfl
  · have hgap : byteLength (rest.takeWhile isBlank) = 0 := by
      rw [byteLength_takeWhile_isBlank_eq_zero]
      simpa using h
    rw [if_pos hgap, if_neg h]
    rfl

/-- Where no list of this depth is open, nothing ends and no comma belongs to a list. -/
theorem unchanged_of_not_listening {scan : ListScan} (h : scan.isListening = false)
    (offset : Nat) : scan.close offset = scan ∧ scan.addComma offset = scan := by
  obtain ⟨stack, depth, items⟩ := scan
  cases stack with
  | nil => exact ⟨rfl, rfl⟩
  | cons list stack =>
    have hne : list.depth ≠ depth := by simpa [ListScan.isListening] using h
    exact ⟨if_neg hne, if_neg hne⟩

/-- A pass keeps its depth when lists end. -/
@[simp] theorem depth_close (scan : ListScan) (offset : Nat) :
    (scan.close offset).depth = scan.depth := by
  unfold ListScan.close
  split
  · split <;> rfl
  · rfl

/-- A pass keeps its depth when an item ends. -/
@[simp] theorem depth_addComma (scan : ListScan) (offset : Nat) :
    (scan.addComma offset).depth = scan.depth := by
  unfold ListScan.addComma
  split
  · split <;> rfl
  · rfl

private theorem mk_close (scan : ListScan) (offset : Nat) :
    { stack := (scan.close offset).stack
      depth := scan.depth
      items := (scan.close offset).items } = scan.close offset := by
  rw [← depth_close scan offset]

private theorem mk_addComma (scan : ListScan) (offset : Nat) :
    { stack := (scan.addComma offset).stack
      depth := scan.depth
      items := (scan.addComma offset).items } = scan.addComma offset := by
  rw [← depth_addComma scan offset]

/-- The part of a step that concerns the lists already open. -/
def ListScan.endOrComma (scan : ListScan) (offset : Nat) (inName : Bool) (c : Char)
    (s : List Char) : ListScan :=
  if endsBefore listStops 0 inName c s then scan.close offset
  else if c == ',' then scan.addComma offset else scan

/-- A step of the pass: it ends the list of this depth or adds a comma to it, goes on to the next
depth and puts a new list on the stack. -/
theorem step_eq (scan : ListScan) (offset : Nat) (inName : Bool) (c : Char) (s : List Char) :
    scan.step offset inName c s =
      { stack := (opened? scan.depth offset inName (c :: s)).toList ++
          (scan.endOrComma offset inName c s).stack
        depth := depthAfter scan.depth c
        items := (scan.endOrComma offset inName c s).items } := by
  have hends : endsBefore listStops 0 inName c s =
      (c == ')' || c == ';' ||
        (isNameChar c && !inName && (startsWith "FROM" (c :: s) ||
          startsWithAny tableKeywords (c :: s)))) := rfl
  rw [ListScan.endOrComma, hends, ListScan.step]
  by_cases hopen : c = '('
  · subst hopen
    rw [opened?_eq_none (by decide)]
    rfl
  by_cases hclose : c = ')'
  · subst hclose
    rw [opened?_eq_none (by decide)]
    simp [depthAfter]
  by_cases hsemicolon : c = ';'
  · subst hsemicolon
    rw [opened?_eq_none (by decide)]
    exact (mk_close scan offset).symm
  by_cases hcomma : c = ','
  · subst hcomma
    have hname : isNameChar ',' = false := by decide
    rw [opened?_eq_none hname, hname]
    exact (mk_addComma scan offset).symm
  have hdepth : depthAfter scan.depth c = scan.depth := by
    simp [depthAfter, hopen, hclose]
  have hmarks :
      (c == '(') = false ∧ (c == ')') = false ∧ (c == ';') = false ∧ (c == ',') = false := by
    simp [hopen, hclose, hsemicolon, hcomma]
  obtain ⟨hopen, hclose, hsemicolon, hcomma⟩ := hmarks
  simp only [hdepth, hopen, hclose, hsemicolon, hcomma, Bool.false_or, Bool.false_eq_true, if_false]
  by_cases hword : (isNameChar c && !inName) = true
  · obtain ⟨-, hstart⟩ : isNameChar c = true ∧ inName = false := by simpa using hword
    rw [hword, if_pos rfl, Bool.true_and, startsWith, opened?, hstart, if_neg Bool.false_ne_true,
      afterFrom?]
    cases hfrom : afterKeyword? "FROM" (c :: s) with
    | some rest =>
      simp only [openList_eq, depth_close, Option.isSome_some, Bool.true_or, if_true,
        Option.filter_some]
      split
      · rfl
      · rfl
    | none =>
      simp only [Option.isSome_none, Bool.false_or, Option.filter_none, Option.map_none,
        Option.toList_none, List.nil_append]
      cases hlistening : scan.isListening with
      | true =>
        rw [Bool.true_and]
        split
        · exact (mk_close scan offset).symm
        · rfl
      | false =>
        rw [Bool.false_and, (unchanged_of_not_listening hlistening offset).1]
        simp
  · have hnone : opened? scan.depth offset inName (c :: s) = none := by
      cases hname : isNameChar c with
      | false => exact opened?_eq_none hname ..
      | true =>
        obtain rfl : inName = true := by simpa [hname] using hword
        rfl
    rw [hnone, if_neg hword, (by simpa using hword : (isNameChar c && !inName) = false)]
    rfl

/-! ### The pass -/

/-- Whether the open lists belong to different depths, the innermost to the greatest one, and none
is deeper than the pass. -/
structure Nested (scan : ListScan) : Prop where
  le : ∀ list ∈ scan.stack, list.depth ≤ scan.depth
  descending : scan.stack.Pairwise fun inner outer => outer.depth < inner.depth

/-- The ranges of all items that a state of the pass comes to, when each open list is followed by
itself over the rest of the text. -/
def ListScan.allRanges (scan : ListScan) (offset : Nat) (inName : Bool) (s : List Char) :
    List (Nat × Nat) :=
  scan.items ++ scan.stack.flatMap (·.follow scan.depth offset inName s)

/-- The lists around the innermost one of a depth are of lower depths. -/
theorem Nested.lt_of_not_listening {scan : ListScan} (h : Nested scan)
    (hlistening : scan.isListening = false) : ∀ list ∈ scan.stack, list.depth < scan.depth := by
  obtain ⟨stack, depth, items⟩ := scan
  cases stack with
  | nil => simp
  | cons first rest =>
    have hne : first.depth ≠ depth := by simpa [ListScan.isListening] using hlistening
    have hfirst : first.depth < depth :=
      Nat.lt_of_le_of_ne (h.le first (List.mem_cons_self ..)) hne
    intro list hlist
    rcases List.mem_cons.mp hlist with rfl | hlist
    · exact hfirst
    · exact Nat.lt_trans ((List.pairwise_cons.mp h.descending).1 list hlist) hfirst

private theorem flatMap_follow_cons {stack : List OpenList} {depth : Nat}
    (h : ∀ list ∈ stack, list.depth < depth) (offset : Nat) (inName : Bool) (c : Char)
    (s : List Char) :
    stack.flatMap (·.follow depth offset inName (c :: s)) =
      stack.flatMap (·.follow (depthAfter depth c) (offset + c.utf8Size) (isNameChar c) s) := by
  induction stack with
  | nil => rfl
  | cons list stack ih =>
    rw [List.flatMap_cons, List.flatMap_cons,
      follow_cons_of_lt (h list (List.mem_cons_self ..)),
      ih fun l hl => h l (List.mem_cons_of_mem list hl)]

private theorem endOrComma_of_listening {list : OpenList} {stack : List OpenList}
    {items : List (Nat × Nat)} (offset : Nat) (inName : Bool) (c : Char) (s : List Char) :
    ListScan.endOrComma ⟨list :: stack, list.depth, items⟩ offset inName c s =
      if endsBefore listStops 0 inName c s then
        ⟨stack, list.depth, items ++ list.ranges offset⟩
      else ⟨list.after list.depth offset c :: stack, list.depth, items⟩ := by
  unfold ListScan.endOrComma
  split
  · simp [ListScan.close]
  · by_cases hcomma : c = ','
    · subst hcomma
      simp [ListScan.addComma, OpenList.after]
    · simp [OpenList.after, hcomma]

/-- A character that does not end a clause changes the depth around the clause as it changes the
depth in it. -/
theorem depthAfter_add {stops : List String} {depth : Nat} {inName : Bool} {c : Char}
    {s : List Char} (h : endsBefore stops depth inName c s = false) (n : Nat) :
    depthAfter (n + depth) c = n + depthAfter depth c := by
  have hclose : c = ')' → depth ≠ 0 := by
    rintro rfl rfl
    exact absurd h (by simp [endsBefore])
  unfold depthAfter
  split
  · omega
  · split
    · next hc =>
      have hpos := hclose (by simpa using hc)
      omega
    · rfl

/-- The lists that a step leaves open stay nested, and every item is come to that was before. -/
theorem Nested.endOrComma {scan : ListScan} (h : Nested scan) (offset : Nat) (inName : Bool)
    (c : Char) (s : List Char) :
    let next := scan.endOrComma offset inName c s
    (∀ list ∈ next.stack, list.depth ≤ depthAfter scan.depth c) ∧
      (next.stack.Pairwise fun inner outer => outer.depth < inner.depth) ∧
      next.items ++ next.stack.flatMap
          (·.follow (depthAfter scan.depth c) (offset + c.utf8Size) (isNameChar c) s) =
        scan.allRanges offset inName (c :: s) := by
  intro next
  cases hlistening : scan.isListening with
  | false =>
    have hnext : next = scan := by
      simp only [next, ListScan.endOrComma, unchanged_of_not_listening hlistening offset, ite_self]
    have hlt := h.lt_of_not_listening hlistening
    rw [hnext]
    refine ⟨fun list hlist => le_depthAfter_of_lt (hlt list hlist) c, h.descending, ?_⟩
    rw [ListScan.allRanges, flatMap_follow_cons hlt]
  | true =>
    obtain ⟨stack, depth, items⟩ := scan
    cases stack with
    | nil => exact absurd hlistening (by simp [ListScan.isListening])
    | cons list stack =>
      obtain rfl : list.depth = depth := by simpa [ListScan.isListening] using hlistening
      have hlt : ∀ outer ∈ stack, outer.depth < list.depth :=
        (List.pairwise_cons.mp h.descending).1
      have hstack := flatMap_follow_cons hlt offset inName c s
      have hlist : list.follow list.depth offset inName (c :: s) =
          if endsBefore listStops 0 inName c s then list.ranges offset
          else (list.after list.depth offset c).follow (depthAfter list.depth c)
            (offset + c.utf8Size) (isNameChar c) s := by
        rw [OpenList.follow, Nat.sub_self]
      have hnext : next = if endsBefore listStops 0 inName c s then
            ⟨stack, list.depth, items ++ list.ranges offset⟩
          else ⟨list.after list.depth offset c :: stack, list.depth, items⟩ :=
        endOrComma_of_listening offset inName c s
      rw [hnext, ListScan.allRanges]
      simp only [List.flatMap_cons, hstack, hlist]
      cases hends : endsBefore listStops 0 inName c s with
      | true =>
        simp only [if_true]
        refine ⟨fun outer houter => le_depthAfter_of_lt (hlt outer houter) c,
          (List.pairwise_cons.mp h.descending).2, ?_⟩
        rw [List.append_assoc]
      | false =>
        simp only [Bool.false_eq_true, if_false]
        refine ⟨?_, ?_, rfl⟩
        · intro l hl
          rcases List.mem_cons.mp hl with rfl | hl
          · have hdepth := depthAfter_add hends list.depth
            rw [Nat.add_zero] at hdepth
            rw [depth_after]
            omega
          · exact le_depthAfter_of_lt (hlt l hl) c
        · refine List.pairwise_cons.mpr ⟨?_, (List.pairwise_cons.mp h.descending).2⟩
          intro outer houter
          rw [depth_after]
          exact hlt outer houter

/-- Once the list of this depth is ended, all that stay open are of lower depths. -/
theorem Nested.lt_of_mem_close {scan : ListScan} (h : Nested scan) (offset : Nat) :
    ∀ list ∈ (scan.close offset).stack, list.depth < scan.depth := by
  cases hlistening : scan.isListening with
  | false =>
    rw [(unchanged_of_not_listening hlistening offset).1]
    exact h.lt_of_not_listening hlistening
  | true =>
    obtain ⟨stack, depth, items⟩ := scan
    cases stack with
    | nil => exact absurd hlistening (by simp [ListScan.isListening])
    | cons list stack =>
      obtain rfl : list.depth = depth := by simpa [ListScan.isListening] using hlistening
      simpa [ListScan.close] using (List.pairwise_cons.mp h.descending).1

private theorem endsBefore_of_opened? {depth offset : Nat} {inName : Bool} {c : Char}
    {s : List Char} {list : OpenList} (h : opened? depth offset inName (c :: s) = some list) :
    endsBefore listStops 0 inName c s = true := by
  have hname := isNameChar_of_opened? h
  have hinName : inName = false := by
    cases inName with
    | false => rfl
    | true => exact absurd h (by simp [opened?])
  have hfrom : startsWith "FROM" (c :: s) = true := by
    rw [startsWith]
    cases hafter : afterKeyword? "FROM" (c :: s) with
    | some rest => rfl
    | none => exact absurd h (by simp [opened?, afterFrom?, hafter])
  simp [endsBefore, listStops, startsWithAny, hname, hinName, hfrom]

/-- A list is opened at the depth of the pass, which a `FROM` does not change. -/
theorem depthAfter_of_opened? {depth offset n : Nat} {inName : Bool} {c : Char} {s : List Char}
    {list : OpenList} (h : opened? n offset inName (c :: s) = some list) :
    depthAfter depth c = depth := by
  have hname := isNameChar_of_opened? h
  have hopen : c ≠ '(' := by
    rintro rfl
    exact absurd hname (by decide)
  have hclose : c ≠ ')' := by
    rintro rfl
    exact absurd hname (by decide)
  simp [depthAfter, hopen, hclose]

/-- A step goes on to nested lists. Every item is come to that was before, and those of the list
that the step opens. -/
theorem Nested.step {scan : ListScan} (h : Nested scan) (offset : Nat) (inName : Bool) (c : Char)
    (s : List Char) :
    let next := scan.step offset inName c s
    Nested next ∧
      (next.allRanges (offset + c.utf8Size) (isNameChar c) s).Perm
        (scan.allRanges offset inName (c :: s) ++
          (opened? scan.depth offset inName (c :: s)).elim []
            (·.follow (depthAfter scan.depth c) (offset + c.utf8Size) (isNameChar c) s)) := by
  intro next
  have hnext : next = _ := step_eq scan offset inName c s
  obtain ⟨hle, hdescending, hranges⟩ := h.endOrComma offset inName c s
  rw [hnext]
  cases hopened : opened? scan.depth offset inName (c :: s) with
  | none =>
    refine ⟨⟨hle, hdescending⟩, ?_⟩
    rw [← hranges, Option.elim_none, List.append_nil]
    rfl
  | some list =>
    have hlt : ∀ outer ∈ (scan.endOrComma offset inName c s).stack, outer.depth < scan.depth := by
      rw [ListScan.endOrComma, endsBefore_of_opened? hopened, if_pos rfl]
      exact h.lt_of_mem_close offset
    have hlist := depth_of_opened? hopened
    refine ⟨⟨?_, ?_⟩, ?_⟩
    · intro l hl
      rcases List.mem_cons.mp hl with rfl | hl
      · rw [hlist, depthAfter_of_opened? hopened]
      · exact hle l hl
    · refine List.pairwise_cons.mpr ⟨?_, hdescending⟩
      intro outer houter
      rw [hlist]
      exact hlt outer houter
    · rw [← hranges, ListScan.allRanges, Option.elim_some, List.append_assoc]
      exact List.Perm.append_left _ List.perm_append_comm

/-- The pass finds the items of the open lists and of all lists that it comes to. -/
theorem Nested.run {scan : ListScan} (h : Nested scan) (offset : Nat) (inName : Bool)
    (s : List Char) :
    let last := scan.run offset inName s
    (last.items ++ last.stack.flatMap (·.ranges (offset + byteLength s))).Perm
      (scan.allRanges offset inName s ++ openedRanges scan.depth offset inName s) := by
  induction s generalizing scan offset inName with
  | nil =>
    rw [openedRanges, List.append_nil]
    exact List.Perm.refl _
  | cons c s ih =>
    obtain ⟨hnext, hranges⟩ := h.step offset inName c s
    have hdepth : (scan.step offset inName c s).depth = depthAfter scan.depth c := by
      rw [step_eq]
    have hrun := ih hnext (offset + c.utf8Size) (isNameChar c)
    rw [hdepth, Nat.add_assoc, ← byteLength_cons] at hrun
    rw [openedRanges, ← List.append_assoc]
    exact hrun.trans (hranges.append_right _)

/-- The pass finds the items of every list that is followed by itself. -/
theorem fromListRanges_perm (s : List Char) :
    (fromListRanges s).Perm (openedRanges 0 0 false s) := by
  have hstart : Nested {} := ⟨fun _ h => absurd h List.not_mem_nil, List.Pairwise.nil⟩
  have hrun := hstart.run 0 false s
  rw [Nat.zero_add] at hrun
  exact hrun

end SqlReview.Query

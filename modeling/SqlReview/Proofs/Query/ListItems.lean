import SqlReview.Proofs.Query.BoundTable
import SqlReview.Proofs.Query.ListPass

/-!
# The items of lists, list by list

The items of the lists of tables as they are read without a pass: for every `FROM` the text behind
its gap is taken up to the end of the clause and cut at the commas outside of parentheses. A list
that the pass follows by itself has these items, and so the pass finds the items of every list that
begins anywhere in a text, each as often as it is there.
-/

namespace SqlReview.Query

open SqlReview.Text SqlReview.Lexical SqlReview.Search

/-! ### Lists as texts -/

/-- The parts of a text that is a list of two tables or more. -/
def severalParts (parts : List (List Char)) : List (List Char) :=
  if 2 ≤ parts.length then parts else []

/-- The items of the list that a text begins with. -/
def listItems (s : List Char) : List (List Char) :=
  severalParts (splitTopLevel ',' (topLevel listStops s))

/-- What follows each `FROM` and the gap behind it. -/
def listTexts (inName : Bool) : List Char → List (List Char)
  | [] => []
  | c :: s =>
    (if inName then [] else ((afterFrom? (c :: s)).map trimStart).toList) ++
      listTexts (isNameChar c) s

/-- The items of all lists in a text, list by list. -/
def itemsByList (s : List Char) : List (List Char) :=
  (listTexts false s).flatMap listItems

/-- Nothing in front of the first part changes no part. -/
theorem prepend_nil {parts : List (List Char)} (h : parts ≠ []) : prepend [] parts = parts := by
  obtain ⟨part, parts, rfl⟩ := List.exists_cons_of_ne_nil h
  rfl

/-! ### One list -/

/-- An open list whose last item begins behind `p` and whose other items are `items`. -/
structure OpenList.Holds (list : OpenList) (p : List Char) (items : List (List Char)) : Prop where
  length : list.commas.length = items.length
  cut : ∀ x s, (itemRanges list.start list.commas.reverse (byteLength (p ++ x))).filterMap
    (Checked.cut (p ++ (x ++ s))) = items ++ [x]

variable {list : OpenList} {p : List Char} {items : List (List Char)}

private theorem OpenList.holds_nil (hstart : list.start = byteLength p)
    (hcommas : list.commas = []) : list.Holds p [] where
  length := by rw [hcommas]; rfl
  cut x s := by
    have hcut : Checked.cut (p ++ (x ++ s)) (byteLength p, byteLength (p ++ x)) = some x := by
      rw [Checked.cut, byteLength_append, slice?_byteLength]
    rw [hstart, hcommas, List.reverse_nil, itemRanges, List.filterMap_cons_some hcut]
    rfl

/-- A comma ends the last item and begins a new one. -/
theorem OpenList.Holds.comma (h : list.Holds p items) (x : List Char) :
    OpenList.Holds { list with commas := byteLength (p ++ x) :: list.commas } (p ++ (x ++ [',']))
      (items ++ [x]) where
  length := by
    have hlength := h.length
    simp only [List.length_cons, List.length_append, List.length_nil]
    omega
  cut y s := by
    have hsize : ','.utf8Size = 1 := rfl
    have hcomma : byteLength (p ++ x) + 1 = byteLength (p ++ (x ++ [','])) := by
      rw [← List.append_assoc, Checked.byteLength_concat, hsize]
    have hitems := h.cut x ([','] ++ (y ++ s))
    have hlast : Checked.cut (p ++ (x ++ [',']) ++ (y ++ s))
        (byteLength (p ++ (x ++ [','])), byteLength (p ++ (x ++ [',']) ++ y)) = some y := by
      rw [Checked.cut, byteLength_append _ y, slice?_byteLength]
    have htext : p ++ (x ++ ([','] ++ (y ++ s))) = p ++ (x ++ [',']) ++ (y ++ s) := by simp
    rw [htext] at hitems
    simp only [List.reverse_cons, Checked.itemRanges_concat, List.filterMap_append, hitems, hcomma,
      List.filterMap_cons_some hlast, List.filterMap_nil]

private theorem OpenList.Holds.ranges (h : list.Holds p items) (x s : List Char) :
    (list.ranges (byteLength (p ++ x))).filterMap (Checked.cut (p ++ (x ++ s))) =
      severalParts (items ++ [x]) := by
  have hlength := h.length
  rw [OpenList.ranges, severalParts, List.length_append, List.length_singleton]
  by_cases hcommas : list.commas = []
  · have hitems : items.length = 0 := by
      rw [← hlength, hcommas]
      rfl
    rw [hcommas, List.isEmpty_nil, if_pos rfl, if_neg (by omega)]
    rfl
  · have hpos := List.length_pos_iff.mpr hcommas
    rw [List.isEmpty_eq_false_iff.mpr hcommas, if_neg Bool.false_ne_true, if_pos (by omega), h.cut]

/-- A list that is followed to its end has the items that its text has, cut at the commas outside
of parentheses. `x` is what has been read of the last item. -/
theorem OpenList.Holds.follow (h : list.Holds p items) (x s : List Char) (depth : Nat)
    (inName : Bool) :
    (list.follow (list.depth + depth) (byteLength (p ++ x)) inName s).filterMap
        (Checked.cut (p ++ (x ++ s))) =
      severalParts (items ++
        prepend x (splitTopLevelFrom ',' depth (topLevelFrom listStops depth inName s).1)) := by
  induction s generalizing list p items x depth inName with
  | nil =>
    simpa [OpenList.follow, topLevelFrom, splitTopLevelFrom, prepend] using h.ranges x []
  | cons c s ih =>
    have hsize : byteLength (p ++ x) + c.utf8Size = byteLength (p ++ (x ++ [c])) := by
      rw [← List.append_assoc, Checked.byteLength_concat]
    have htext : p ++ (x ++ c :: s) = p ++ (x ++ [c]) ++ s := by simp
    rw [OpenList.follow, Nat.add_sub_cancel_left, topLevelFrom, hsize]
    cases hends : endsBefore listStops depth inName c s with
    | true =>
      simpa [splitTopLevelFrom, prepend] using h.ranges x (c :: s)
    | false =>
      simp only [Bool.false_eq_true, if_false]
      by_cases hcomma : c = ',' ∧ depth = 0
      · obtain ⟨rfl, rfl⟩ := hcomma
        have hafter : list.after (list.depth + 0) (byteLength (p ++ x)) ',' =
            { list with commas := byteLength (p ++ x) :: list.commas } := by
          simp [OpenList.after]
        have hdepth : ∀ depth, depthAfter depth ',' = depth := fun _ => rfl
        have hnext := ih (h.comma x) [] 0 (isNameChar ',')
        rw [List.append_nil, List.nil_append] at hnext
        rw [prepend_nil (Checked.splitTopLevelFrom_ne_nil ',' 0 _)] at hnext
        rw [hafter, hdepth, hdepth, htext,
          splitTopLevelFrom_separator (by decide)]
        simpa [prepend] using hnext
      · have hafter : list.after (list.depth + depth) (byteLength (p ++ x)) c = list := by
          rw [OpenList.after, if_neg]
          simpa using hcomma
        have hnext := ih h (x ++ [c]) (depthAfter depth c) (isNameChar c)
        rw [← List.append_assoc] at hnext
        rw [htext, hafter, depthAfter_add hends, Checked.splitTopLevelFrom_cons hcomma,
          prepend_prepend]
        exact hnext

/-- A list of a depth goes on over blanks and over the rest of a name. -/
theorem follow_quiet (list : OpenList) (depth : Nat) {q : List Char} (p s : List Char)
    (h : Checked.Quiet (Checked.endsInName p) q) :
    list.follow depth (byteLength p) (Checked.endsInName p) (q ++ s) =
      list.follow depth (byteLength (p ++ q)) (Checked.endsInName (p ++ q)) s := by
  induction q generalizing p with
  | nil => rw [List.nil_append, List.append_nil]
  | cons c q ih =>
    obtain ⟨hchar, hquiet⟩ := h
    obtain ⟨hopen, hclose, hsemicolon, hcomma, hword⟩ := Checked.quiet_char hchar
    have hends : endsBefore listStops (depth - list.depth) (Checked.endsInName p) c (q ++ s) =
        false := by
      rw [endsBefore, hclose, hsemicolon, hword]
      simp
    have hafter : list.after depth (byteLength p) c = list := by
      rw [OpenList.after, hcomma, Bool.false_and, if_neg Bool.false_ne_true]
    have hdepth : depthAfter depth c = depth := by
      rw [depthAfter, hopen, hclose]
      rfl
    have hnext := ih (p ++ [c])
    rw [Checked.endsInName_concat, Checked.byteLength_concat, List.append_assoc] at hnext
    rw [List.cons_append, OpenList.follow, hends, if_neg Bool.false_ne_true, hafter, hdepth,
      hnext hquiet]
    rfl

/-! ### All lists -/

private theorem endsInName_append_blanks (p : List Char) {w : List Char}
    (hw : ∀ c ∈ w, isBlank c = true) (hne : w ≠ []) : Checked.endsInName (p ++ w) = false := by
  rw [← List.dropLast_concat_getLast hne, ← List.append_assoc, Checked.endsInName_concat]
  exact isNameChar_of_isBlank (hw _ (List.getLast_mem hne))

/-- The items of the list that a `FROM` opens are those of the text behind its gap. -/
theorem follow_opened {p s rest : List Char} {c : Char} (hfrom : afterFrom? (c :: s) = some rest)
    (list : OpenList) (hcommas : list.commas = [])
    (hstart : list.start = byteLength p + 4 + byteLength (rest.takeWhile isBlank)) :
    (list.follow list.depth (byteLength (p ++ [c])) (isNameChar c) s).filterMap
      (Checked.cut (p ++ c :: s)) = listItems (trimStart rest) := by
  obtain ⟨hafter, hgap⟩ := Option.filter_eq_some_iff.mp hfrom
  obtain ⟨w, rfl, hc, hw, hlength⟩ := Checked.exists_from hafter
  have hblanks : ∀ d ∈ rest.takeWhile isBlank, isBlank d = true := fun d hd =>
    List.all_eq_true.mp List.all_takeWhile d hd
  have hne : rest.takeWhile isBlank ≠ [] := by
    intro hnil
    rw [byteLength_takeWhile_isBlank_eq_zero.mp (by rw [hnil]; rfl)] at hgap
    exact absurd hgap Bool.false_ne_true
  have hquiet := follow_quiet list list.depth (p ++ [c]) (trimStart rest)
    (by rw [Checked.endsInName_concat, hc]; exact Checked.quiet_name hw hblanks)
  have hrest : rest.takeWhile isBlank ++ trimStart rest = rest := List.takeWhile_append_dropWhile
  have hends := endsInName_append_blanks (p ++ [c] ++ w) hblanks hne
  have hheld : list.Holds (p ++ [c] ++ w ++ rest.takeWhile isBlank) [] := by
    refine OpenList.holds_nil ?_ hcommas
    rw [byteLength_cons] at hlength
    have hfour : byteLength "FROM".toList = 4 := rfl
    simp only [byteLength_append, byteLength_cons, byteLength_nil]
    omega
  have hitems := hheld.follow [] (trimStart rest) 0 false
  rw [Nat.add_zero, List.append_nil, List.nil_append, List.nil_append,
    prepend_nil (Checked.splitTopLevelFrom_ne_nil ',' 0 _)] at hitems
  rw [Checked.endsInName_concat, ← List.append_assoc, hends, List.append_assoc, hrest] at hquiet
  have htext : p ++ c :: (w ++ rest) =
      p ++ [c] ++ w ++ rest.takeWhile isBlank ++ trimStart rest := by
    rw [List.append_assoc _ _ (trimStart rest), hrest]
    simp
  rw [hquiet, htext]
  exact hitems

/-- The ranges of the items of all lists in a text cut out the items of all lists. -/
theorem openedRanges_cut (depth : Nat) (p s : List Char) :
    (openedRanges depth (byteLength p) (Checked.endsInName p) s).filterMap (Checked.cut (p ++ s)) =
      (listTexts (Checked.endsInName p) s).flatMap listItems := by
  induction s generalizing depth p with
  | nil => rfl
  | cons c s ih =>
    have hnext := ih (depthAfter depth c) (p ++ [c])
    rw [Checked.endsInName_concat, Checked.byteLength_concat, ← List.append_cons] at hnext
    rw [openedRanges, listTexts, List.filterMap_append, hnext, List.flatMap_append,
      ← Checked.byteLength_concat]
    congr 1
    cases hname : Checked.endsInName p with
    | true => rfl
    | false =>
      cases hfrom : afterFrom? (c :: s) with
      | none => simp [opened?, hfrom]
      | some rest =>
        have hopened : opened? depth (byteLength p) false (c :: s) =
            some { depth, start := byteLength p + 4 + byteLength (rest.takeWhile isBlank) } := by
          rw [opened?, hfrom]
          rfl
        rw [hopened, Option.elim_some, depthAfter_of_opened? hopened]
        simpa using follow_opened hfrom { depth, start := _ } rfl rfl

/-- The pass finds the items of the lists as they are list by list. -/
theorem fromListItems_perm (s : List Char) : (fromListItems s).Perm (itemsByList s) := by
  have hcut := openedRanges_cut 0 [] s
  rw [List.nil_append] at hcut
  exact ((fromListRanges_perm s).filterMap (Checked.cut s)).trans (.of_eq hcut)

/-! ### Tables -/

/-- The tables of a text, with the items of its lists read list by list. -/
theorem mem_tables_by_list {s name : List Char} {bound : List (List Char)} :
    name ∈ tables s bound ↔ name ∉ bound ∧
      name ∈ (namesAfter "FROM" s ++ namesAfter "JOIN" s ++
        (itemsByList s).filterMap firstWord?).filterMap tableName? := by
  have hitems := (fromListItems_perm s).filterMap firstWord?
  have hnames : name ∈ (tableCandidates s).filterMap tableName? ↔
      name ∈ (namesAfter "FROM" s ++ namesAfter "JOIN" s ++
        (itemsByList s).filterMap firstWord?).filterMap tableName? :=
    ((hitems.append_left _).filterMap tableName?).mem_iff
  rw [mem_tables, hnames, And.comm]

/-- The pass over the lists finds what a plain scan finds that begins anew at each `FROM`: the same
items, each as often. So the tables are the names after a `FROM` or a `JOIN` and the names of these
items, apart from the bound ones. -/
theorem fromListItems_perm_and_mem_tables (s : List Char) :
    (fromListItems s).Perm (itemsByList s) ∧
      ∀ bound name, name ∈ tables s bound ↔ name ∉ bound ∧
        name ∈ (namesAfter "FROM" s ++ namesAfter "JOIN" s ++
          (itemsByList s).filterMap firstWord?).filterMap tableName? :=
  ⟨fromListItems_perm s, fun _ _ => mem_tables_by_list⟩

example : itemsByList "SELECT x FROM a, (SELECT y FROM b, c) s WHERE z".toList =
    ["a".toList, " (SELECT y FROM b, c) s ".toList, "b".toList, " c".toList] := by
  decide +kernel

end SqlReview.Query

import SqlReview.Proofs.Checked.Names
import SqlReview.Query.Table

/-!
# Checked lists of tables

The pass over the lists `FROM a, b, ...` stores the offset of the first item of a list and those of
its commas, and cuts the items out when the list ends. What is stored always lies before the place
that the pass has come to, with one exception: the first item of a list begins behind the blanks
after its `FROM`, which the pass has still to go over. Nothing happens on the way there, so a list
ends at its first item or behind it.
-/

namespace SqlReview.Checked

open SqlReview.Text SqlReview.Lexical SqlReview.Search SqlReview.Query

/-- The part of a text that a range of offsets cuts out. -/
def cut (text : List Char) (range : Nat × Nat) : Checked (List Char) :=
  slice? text range.1 range.2

/-- The items of a list that ends at an offset. -/
def itemsOf (text : List Char) (list : OpenList) (stop : Nat) : Checked (List (List Char)) :=
  (list.ranges stop).mapM (cut text)

/-- The state of the pass: open lists, innermost first, parentheses open, and the items found. -/
structure ListScan where
  stack : List OpenList := []
  depth : Nat := 0
  items : List (List Char) := []

namespace ListScan

/-- Ends the list of this depth, if one is open. -/
def close (text : List Char) (scan : ListScan) (stop : Nat) : Checked ListScan :=
  match scan.stack with
  | list :: stack =>
    if list.depth = scan.depth then do
      let ended ← itemsOf text list stop
      some { scan with stack, items := scan.items ++ ended }
    else some scan
  | [] => some scan

/-- Adds a comma to the list of this depth, if one is open. -/
def addComma (scan : ListScan) (offset : Nat) : ListScan :=
  match scan.stack with
  | list :: stack =>
    if list.depth = scan.depth then
      { scan with stack := { list with commas := offset :: list.commas } :: stack }
    else scan
  | [] => scan

/-- Opens a list at a `FROM` that begins at `offset`, given the text from there on. -/
def openList (scan : ListScan) (offset : Nat) (rest : List Char) : Checked ListScan := do
  let after ← dropBytes? (byteLength "FROM".toList) rest
  let gap ← minus (byteLength after) (byteLength (trimStart after))
  if gap = 0 then some scan
  else
    let start := offset + byteLength "FROM".toList + gap
    some { scan with stack := { depth := scan.depth, start } :: scan.stack }

/-- A word that begins at an offset. -/
def onWord (text : List Char) (scan : ListScan) (offset : Nat) : Checked ListScan := do
  let rest ← dropBytes? offset text
  if ← startsWith "FROM" rest then
    let closed ← scan.close text offset
    closed.openList offset rest
  else
    let ends ← andAlso (scan.stack.head?.any (·.depth == scan.depth))
      (tableKeywords.anyM (startsWith · rest))
    if ends then scan.close text offset else some scan

/-- The state after a character at an offset. -/
def step (text : List Char) (scan : ListScan) (place : Nat × Char) : Checked ListScan :=
  let (i, c) := place
  if c == '(' then some { scan with depth := scan.depth + 1 }
  else if c == ')' then do
    let closed ← scan.close text i
    some { closed with depth := closed.depth - 1 }
  else if c == ';' then scan.close text i
  else if c == ',' then some (scan.addComma i)
  else do
    let word ← andAlso (isNameChar c) (atWordStart text i)
    if word then scan.onWord text i else some scan

end ListScan

/-- The items of the lists of two tables or more. -/
def fromListItems (s : List Char) : Checked (List (List Char)) := do
  let scan ← (charIndices 0 s).foldlM (ListScan.step s) {}
  let last ← scan.stack.mapM (itemsOf s · (byteLength s))
  some (scan.items ++ last.flatten)

/-- The tables that a text names, each once, apart from the bound names. -/
def tables (s : List Char) (bound : List (List Char)) : Checked (List (List Char)) := do
  let items ← fromListItems s
  let candidates := (occurrences (introducedName "FROM") s).filterMap (tableCandidate? "FROM") ++
    (occurrences (introducedName "JOIN") s).filterMap (tableCandidate? "JOIN") ++
    items.filterMap firstWord?
  some ((candidates.filterMap tableName?).foldl
    (fun names name => if bound.contains name then names else insertName names name) [])

/-! ### Ranges of a part that has been read -/

/-- Whether a range begins and ends in a text, in this order and between characters. -/
def Within (p : List Char) (range : Nat × Nat) : Prop :=
  ∃ a w b, p = a ++ (w ++ b) ∧ range = (byteLength a, byteLength (a ++ w))

private theorem Within.append {p : List Char} {range : Nat × Nat} (h : Within p range)
    (s : List Char) : Within (p ++ s) range := by
  obtain ⟨a, w, b, rfl, hrange⟩ := h
  exact ⟨a, w, b ++ s, by simp, hrange⟩

/-- What a range of a text cuts out is there. -/
theorem Within.cut_isSome {text : List Char} {range : Nat × Nat} (h : Within text range) :
    (cut text range).isSome = true := by
  obtain ⟨a, w, b, rfl, rfl⟩ := h
  rw [cut, byteLength_append, slice?_byteLength]
  rfl

/-- A range ends no earlier than it begins. -/
theorem Within.le {text : List Char} {range : Nat × Nat} (h : Within text range) :
    range.1 ≤ range.2 := by
  obtain ⟨a, w, b, -, rfl⟩ := h
  rw [byteLength_append]
  omega

/-- A range that ends where a part ends is a range of a longer part up to the end of that. -/
theorem Within.extend {p : List Char} {start : Nat} (h : Within p (start, byteLength p))
    (s : List Char) : Within (p ++ s) (start, byteLength (p ++ s)) := by
  obtain ⟨a, w, b, rfl, hrange⟩ := h
  obtain ⟨rfl, -⟩ := Prod.mk.inj hrange
  exact ⟨a, w ++ (b ++ s), [], by simp, by simp⟩

private theorem within_end (p : List Char) : Within p (byteLength p, byteLength p) :=
  ⟨p, [], [], by simp, by simp⟩

private theorem exists_itemRanges (start : Nat) (commas : List Nat) :
    ∃ closed last, ∀ stop, itemRanges start commas stop = closed ++ [(last, stop)] := by
  induction commas generalizing start with
  | nil => exact ⟨[], start, fun _ => rfl⟩
  | cons comma commas ih =>
    obtain ⟨closed, last, h⟩ := ih (comma + 1)
    exact ⟨(start, comma) :: closed, last, fun stop => by rw [itemRanges, h, List.cons_append]⟩

/-- With one comma more a list has one item more, behind that comma. -/
theorem itemRanges_concat (start : Nat) (commas : List Nat) (comma stop : Nat) :
    itemRanges start (commas ++ [comma]) stop =
      itemRanges start commas comma ++ [(comma + 1, stop)] := by
  induction commas generalizing start with
  | nil => rfl
  | cons first commas ih => rw [List.cons_append, itemRanges, itemRanges, ih, List.cons_append]

/-! ### Open lists -/

/-- A list whose first item begins in the part `p` that has been read. Were it to end here, its
items could be cut out. -/
def Settled (p : List Char) (list : OpenList) : Prop :=
  ∀ range ∈ itemRanges list.start list.commas.reverse (byteLength p), Within p range

private theorem Settled.append {p : List Char} {list : OpenList} (h : Settled p list)
    (s : List Char) : Settled (p ++ s) list := by
  obtain ⟨closed, last, hranges⟩ := exists_itemRanges list.start list.commas.reverse
  rw [Settled, hranges] at h ⊢
  intro range hrange
  rcases List.mem_append.mp hrange with hrange | hrange
  · exact (h range (List.mem_append_left _ hrange)).append s
  · rw [List.mem_singleton.mp hrange]
    exact (h (last, byteLength p) (by simp)).extend s

private theorem settled_start (p : List Char) {list : OpenList} (hstart : list.start = byteLength p)
    (hcommas : list.commas = []) : Settled p list := by
  intro range hrange
  rw [hstart, hcommas, List.reverse_nil, itemRanges, List.mem_singleton] at hrange
  rw [hrange]
  exact within_end p

private theorem Settled.comma {p : List Char} {list : OpenList} (h : Settled p list) :
    Settled (p ++ [',']) { list with commas := byteLength p :: list.commas } := by
  have hsize : ','.utf8Size = 1 := rfl
  intro range hrange
  simp only [List.reverse_cons, itemRanges_concat] at hrange
  rcases List.mem_append.mp hrange with hrange | hrange
  · exact (h range hrange).append [',']
  · rw [List.mem_singleton.mp hrange, ← hsize, ← byteLength_concat]
    exact within_end _

private theorem Settled.ranges {p : List Char} {list : OpenList} (h : Settled p list) :
    ∀ range ∈ list.ranges (byteLength p), Within p range := by
  intro range hrange
  rw [OpenList.ranges] at hrange
  split at hrange
  · exact absurd hrange (List.not_mem_nil)
  · exact h range hrange

/-- Text that the pass goes over without a step: blanks, and the rest of a name. -/
def Quiet : (inName : Bool) → List Char → Prop
  | _, [] => True
  | inName, c :: s => (isBlank c = true ∨ isNameChar c = true ∧ inName = true) ∧
      Quiet (isNameChar c) s

/-- A state of the pass behind the part `p` of a text with nothing stored beyond it. -/
structure Clear (p : List Char) (scan : Query.ListScan) : Prop where
  items : ∀ range ∈ scan.items, Within p range
  stack : ∀ list ∈ scan.stack, Settled p list

/-- A state of the pass between the parts `p` and `s` of a text whose innermost list begins behind
text that the pass goes over without a step. -/
structure Awaiting (p s : List Char) (scan : Query.ListScan) (q : List Char) : Prop where
  items : ∀ range ∈ scan.items, Within p range
  next : q <+: s
  ne_nil : q ≠ []
  quiet : Quiet (endsInName p) q
  stack : ∃ list around, scan.stack = list :: around ∧ list.start = byteLength (p ++ q) ∧
    list.commas = [] ∧ ∀ l ∈ around, Settled p l

/-- What holds of a state of the pass between two parts of a text. -/
def Sound (p s : List Char) (scan : Query.ListScan) : Prop :=
  Clear p scan ∨ ∃ q, Awaiting p s scan q

private theorem Clear.append {p : List Char} {scan : Query.ListScan} (h : Clear p scan)
    (s : List Char) : Clear (p ++ s) scan where
  items range hrange := (h.items range hrange).append s
  stack list hlist := (h.stack list hlist).append s

private theorem Clear.setDepth {p : List Char} {scan : Query.ListScan} (h : Clear p scan)
    (d : Nat) : Clear p { scan with depth := d } where
  items := h.items
  stack := h.stack

private theorem Clear.close {p : List Char} {scan : Query.ListScan} (h : Clear p scan) :
    Clear p (scan.close (byteLength p)) := by
  obtain ⟨stack, depth, items⟩ := scan
  cases stack with
  | nil => exact h
  | cons list stack =>
    simp only [Query.ListScan.close]
    split
    · refine ⟨fun range hrange => ?_, fun l hl => h.stack l (List.mem_cons_of_mem list hl)⟩
      rcases List.mem_append.mp hrange with hrange | hrange
      · exact h.items range hrange
      · exact (h.stack list (List.mem_cons_self ..)).ranges range hrange
    · exact h

private theorem Clear.addComma {p : List Char} {scan : Query.ListScan} (h : Clear p scan) :
    Clear (p ++ [',']) (scan.addComma (byteLength p)) := by
  obtain ⟨stack, depth, items⟩ := scan
  cases stack with
  | nil => exact h.append [',']
  | cons list stack =>
    simp only [Query.ListScan.addComma]
    split
    · refine ⟨(h.append [',']).items, fun l hl => ?_⟩
      rcases List.mem_cons.mp hl with rfl | hl
      · exact (h.stack list (List.mem_cons_self ..)).comma
      · exact (h.append [',']).stack l (List.mem_cons_of_mem list hl)
    · exact h.append [',']

/-! ### Quiet text -/

private theorem quiet_blanks {w : List Char} (hw : ∀ c ∈ w, isBlank c = true) (inName : Bool) :
    Quiet inName w := by
  induction w generalizing inName with
  | nil => trivial
  | cons c w ih =>
    exact ⟨.inl (hw c (List.mem_cons_self ..)), ih (fun d hd => hw d (List.mem_cons_of_mem c hd)) _⟩

/-- The rest of a name and the blanks behind it. -/
theorem quiet_name {v w : List Char} (hv : ∀ c ∈ v, isNameChar c = true)
    (hw : ∀ c ∈ w, isBlank c = true) : Quiet true (v ++ w) := by
  induction v with
  | nil => exact quiet_blanks hw true
  | cons c v ih =>
    have hc := hv c (List.mem_cons_self ..)
    refine ⟨.inr ⟨hc, rfl⟩, ?_⟩
    rw [hc]
    exact ih fun d hd => hv d (List.mem_cons_of_mem c hd)

/-- A character that the pass goes over without a step is no mark and begins no word. -/
theorem quiet_char {c : Char} {inName : Bool}
    (h : isBlank c = true ∨ isNameChar c = true ∧ inName = true) :
    (c == '(') = false ∧ (c == ')') = false ∧ (c == ';') = false ∧ (c == ',') = false ∧
      (isNameChar c && !inName) = false := by
  have hmark : ∀ k : Char, isBlank k = false → isNameChar k = false → (c == k) = false := by
    rintro k hblank hname
    refine beq_eq_false_iff_ne.mpr ?_
    rintro rfl
    simp [hblank, hname] at h
  refine ⟨hmark '(' rfl (by decide), hmark ')' rfl (by decide), hmark ';' rfl (by decide),
    hmark ',' rfl (by decide), ?_⟩
  rcases h with hblank | ⟨-, rfl⟩
  · rw [isNameChar_of_isBlank hblank, Bool.false_and]
  · rw [Bool.not_true, Bool.and_false]

/-- The letters that a text begins with. -/
theorem exists_letters {ks s rest : List Char} (h : dropLetters? ks s = some rest) :
    ∃ w, s = w ++ rest ∧ ∀ c ∈ w, ∃ k ∈ ks, sameLetter k c = true := by
  induction ks generalizing s with
  | nil =>
    obtain rfl := Option.some.inj h
    exact ⟨[], rfl, fun _ hc => absurd hc List.not_mem_nil⟩
  | cons k ks ih =>
    cases s with
    | nil => exact absurd h (by simp [dropLetters?])
    | cons c s =>
      rw [dropLetters?] at h
      split at h
      · next hk =>
        obtain ⟨w, rfl, hw⟩ := ih h
        refine ⟨c :: w, rfl, fun d hd => ?_⟩
        rcases List.mem_cons.mp hd with rfl | hd
        · exact ⟨k, List.mem_cons_self .., hk⟩
        · obtain ⟨e, he, hed⟩ := hw d hd
          exact ⟨e, List.mem_cons_of_mem k he, hed⟩
      · exact absurd h (by simp)

/-- A `FROM` is a name, the rest of which is followed by the rest of the text. -/
theorem exists_from {c : Char} {s rest : List Char}
    (h : afterKeyword? "FROM" (c :: s) = some rest) :
    ∃ w, s = w ++ rest ∧ isNameChar c = true ∧ (∀ d ∈ w, isNameChar d = true) ∧
      byteLength (c :: w) = byteLength "FROM".toList := by
  obtain ⟨-, hlength⟩ := suffix_afterKeyword? h
  obtain ⟨w, hw, hletters⟩ := exists_letters (Option.filter_eq_some_iff.mp h).1
  have hkeyword : ∀ k ∈ "FROM".toList, isNameChar k = true := by decide
  have hname : ∀ d ∈ w, isNameChar d = true := by
    intro d hd
    obtain ⟨k, hk, hkd⟩ := hletters d hd
    rw [← isNameChar_eq_of_sameLetter hkd]
    exact hkeyword k hk
  rw [hw, byteLength_append, Nat.add_right_cancel_iff] at hlength
  cases w with
  | nil => exact absurd hlength (by decide)
  | cons d w =>
    obtain ⟨rfl, rfl⟩ := List.cons.inj hw
    exact ⟨w, rfl, hname c (List.mem_cons_self ..),
      fun e he => hname e (List.mem_cons_of_mem c he), hlength⟩

/-- A list that a `FROM` opens begins behind the rest of the `FROM` and the blanks after it. -/
theorem Clear.openList {p : List Char} {scan : Query.ListScan} (h : Clear p scan) {c : Char}
    {s rest : List Char} (hfrom : afterKeyword? "FROM" (c :: s) = some rest) :
    Sound (p ++ [c]) s (scan.openList (byteLength p + 4) rest) := by
  have hnext := h.append [c]
  rw [Query.ListScan.openList]
  split
  · exact .inl hnext
  · next hgap =>
    obtain ⟨w, rfl, hname, hw, hlength⟩ := exists_from hfrom
    have hfour : byteLength "FROM".toList = 4 := rfl
    refine .inr ⟨w ++ rest.takeWhile isBlank, hnext.items, ?_, ?_, ?_,
      ⟨_, scan.stack, rfl, ?_, rfl, hnext.stack⟩⟩
    · exact (List.prefix_append_right_inj w).mpr (List.takeWhile_prefix isBlank)
    · intro hnil
      rw [(List.append_eq_nil_iff.mp hnil).2] at hgap
      exact hgap rfl
    · rw [endsInName_concat, hname]
      exact quiet_name hw fun d hd => List.all_eq_true.mp List.all_takeWhile d hd
    · rw [byteLength_cons] at hlength
      simp only [byteLength_append, byteLength_cons, byteLength_nil]
      omega

/-! ### Steps of the pass -/

/-- A list that begins right here is waited for no more. -/
theorem Awaiting.step {p s q : List Char} {scan : Query.ListScan} {c : Char}
    (h : Awaiting p (c :: s) scan q) :
    (isBlank c = true ∨ isNameChar c = true ∧ endsInName p = true) ∧ Sound (p ++ [c]) s scan := by
  obtain ⟨d, q, rfl⟩ := List.exists_cons_of_ne_nil h.ne_nil
  obtain ⟨rfl, hnext⟩ := List.cons_prefix_cons.mp h.next
  obtain ⟨hchar, hquiet⟩ := h.quiet
  obtain ⟨list, around, hstack, hstart, hcommas, haround⟩ := h.stack
  have hitems : ∀ range ∈ scan.items, Within (p ++ [d]) range := fun range hrange =>
    (h.items range hrange).append [d]
  have hsettled : ∀ l ∈ around, Settled (p ++ [d]) l := fun l hl => (haround l hl).append [d]
  refine ⟨hchar, ?_⟩
  cases q with
  | nil =>
    refine .inl ⟨hitems, ?_⟩
    rw [hstack]
    intro l hl
    rcases List.mem_cons.mp hl with rfl | hl
    · exact settled_start _ hstart hcommas
    · exact hsettled l hl
  | cons e q =>
    refine .inr ⟨e :: q, hitems, hnext, List.cons_ne_nil e q, ?_,
      ⟨list, around, hstack, ?_, hcommas, hsettled⟩⟩
    · rw [endsInName_concat]
      exact hquiet
    · rw [hstart, List.append_assoc, List.singleton_append]

/-- A state of the pass with its items cut out of the text. -/
def view (text : List Char) (scan : Query.ListScan) : ListScan where
  stack := scan.stack
  depth := scan.depth
  items := scan.items.filterMap (cut text)

private theorem mapM_eq_filterMap {α β : Type} {f : α → Checked β} {l : List α}
    (h : ∀ a ∈ l, (f a).isSome = true) : l.mapM f = some (l.filterMap f) := by
  induction l with
  | nil => rfl
  | cons a l ih =>
    obtain ⟨b, hb⟩ := Option.isSome_iff_exists.mp (h a (List.mem_cons_self ..))
    rw [List.mapM_cons, hb, some_bind, ih fun c hc => h c (List.mem_cons_of_mem a hc), some_bind,
      List.filterMap_cons_some hb]
    rfl

private theorem Settled.itemsOf_eq {p : List Char} {list : OpenList} (h : Settled p list)
    (s : List Char) : itemsOf (p ++ s) list (byteLength p) =
      some ((list.ranges (byteLength p)).filterMap (cut (p ++ s))) :=
  mapM_eq_filterMap fun range hrange => ((h.ranges range hrange).append s).cut_isSome

private theorem Clear.close_view {p : List Char} {scan : Query.ListScan} (h : Clear p scan)
    (s : List Char) :
    (view (p ++ s) scan).close (p ++ s) (byteLength p) =
      some (view (p ++ s) (scan.close (byteLength p))) := by
  obtain ⟨stack, depth, items⟩ := scan
  cases stack with
  | nil => rfl
  | cons list stack =>
    have hitems := (h.stack list (List.mem_cons_self ..)).itemsOf_eq s
    by_cases hdepth : list.depth = depth
    · simp [ListScan.close, Query.ListScan.close, view, hdepth, hitems]
    · simp [ListScan.close, Query.ListScan.close, view, hdepth]

private theorem addComma_view (text : List Char) (scan : Query.ListScan) (offset : Nat) :
    (view text scan).addComma offset = view text (scan.addComma offset) := by
  obtain ⟨stack, depth, items⟩ := scan
  cases stack with
  | nil => rfl
  | cons list stack =>
    by_cases hdepth : list.depth = depth
    · simp [ListScan.addComma, Query.ListScan.addComma, view, hdepth]
    · simp [ListScan.addComma, Query.ListScan.addComma, view, hdepth]

private theorem openList_view (text : List Char) (scan : Query.ListScan) {t rest : List Char}
    (hfrom : afterKeyword? "FROM" t = some rest) (offset : Nat) :
    (view text scan).openList offset t = some (view text (scan.openList (offset + 4) rest)) := by
  have hcut := dropBytes?_of_dropLetters? (Option.filter_eq_some_iff.mp hfrom).1
  have hsplit : byteLength rest =
      byteLength (rest.takeWhile isBlank) + byteLength (trimStart rest) := by
    rw [trimStart, ← byteLength_append, List.takeWhile_append_dropWhile]
  have hgap : minus (byteLength rest) (byteLength (trimStart rest)) =
      some (byteLength (rest.takeWhile isBlank)) := by
    rw [minus_of_le (by omega), hsplit, Nat.add_sub_cancel]
  have hfour : byteLength "FROM".toList = 4 := rfl
  rw [ListScan.openList, hcut, some_bind, hgap, some_bind, Query.ListScan.openList, hfour]
  split
  · rfl
  · rfl

private theorem Clear.onWord_view {p : List Char} {scan : Query.ListScan} (h : Clear p scan)
    (s : List Char) :
    (view (p ++ s) scan).onWord (p ++ s) (byteLength p) =
      some (view (p ++ s)
        (match afterKeyword? "FROM" s with
        | some rest => (scan.close (byteLength p)).openList (byteLength p + 4) rest
        | none =>
          if scan.isListening && startsWithAny tableKeywords s then scan.close (byteLength p)
          else scan)) := by
  have hkeywords : tableKeywords.anyM (startsWith · s) = some (startsWithAny tableKeywords s) :=
    anyM_eq fun k hk => startsWith_eq
      ((by decide : ∀ k ∈ tableKeywords, IsAscii k) k hk) s
  rw [ListScan.onWord, dropBytes?_byteLength, some_bind, startsWith_eq (by decide), some_bind,
    Query.startsWith]
  cases hfrom : afterKeyword? "FROM" s with
  | some rest =>
    simp only [Option.isSome_some, if_true]
    rw [h.close_view s, some_bind, openList_view _ _ hfrom]
  | none =>
    simp only [Option.isSome_none, Bool.false_eq_true, if_false]
    rw [hkeywords, andAlso_some, some_bind]
    have hlistening : ((view (p ++ s) scan).stack.head?.any
        (·.depth == (view (p ++ s) scan).depth)) = scan.isListening := rfl
    rw [hlistening]
    split
    · exact h.close_view s
    · rfl

/-- The pass takes the same step with its offsets checked, and what holds of its state holds
again. -/
theorem Sound.step {p s : List Char} {c : Char} {scan : Query.ListScan}
    (h : Sound p (c :: s) scan) :
    (view (p ++ c :: s) scan).step (p ++ c :: s) (byteLength p, c) =
        some (view (p ++ c :: s) (scan.step (byteLength p) (endsInName p) c s)) ∧
      Sound (p ++ [c]) s (scan.step (byteLength p) (endsInName p) c s) := by
  rw [ListScan.step, Query.ListScan.step, atWordStart_eq, andAlso_some]
  rcases h with h | ⟨q, h⟩
  · have hclose := h.close.append [c]
    split
    · exact ⟨rfl, .inl ((h.append [c]).setDepth _)⟩
    · split
      · rw [h.close_view, some_bind]
        exact ⟨rfl, .inl (hclose.setDepth _)⟩
      · split
        · rw [h.close_view]
          exact ⟨rfl, .inl hclose⟩
        · split
          · next hcomma =>
            obtain rfl : c = ',' := by simpa using hcomma
            exact ⟨congrArg some (addComma_view _ scan _), .inl h.addComma⟩
          · rw [some_bind]
            split
            · rw [h.onWord_view]
              refine ⟨rfl, ?_⟩
              split
              · next rest hfrom => exact h.close.openList hfrom
              · split
                · exact .inl hclose
                · exact .inl (h.append [c])
            · exact ⟨rfl, .inl (h.append [c])⟩
  · obtain ⟨hchar, hsound⟩ := h.step
    obtain ⟨hopen, hclose, hsemicolon, hcomma, hword⟩ := quiet_char hchar
    simp only [hopen, hclose, hsemicolon, hcomma, hword, Bool.false_eq_true, if_false, some_bind]
    exact ⟨trivial, hsound⟩

/-- The pass with its offsets checked ends in the state in which the pass ends. -/
theorem Sound.run {p s : List Char} {scan : Query.ListScan} (h : Sound p s scan) :
    (charIndices (byteLength p) s).foldlM (ListScan.step (p ++ s)) (view (p ++ s) scan) =
        some (view (p ++ s) (scan.run (byteLength p) (endsInName p) s)) ∧
      Sound (p ++ s) [] (scan.run (byteLength p) (endsInName p) s) := by
  induction s generalizing p scan with
  | nil =>
    rw [List.append_nil]
    exact ⟨rfl, h⟩
  | cons c s ih =>
    obtain ⟨hstep, hsound⟩ := h.step
    have hrun := ih hsound
    rw [endsInName_concat, byteLength_concat, ← List.append_cons] at hrun
    rw [charIndices, List.foldlM_cons, hstep, some_bind, Query.ListScan.run]
    exact hrun

/-! ### The items -/

private theorem Sound.clear {p : List Char} {scan : Query.ListScan} (h : Sound p [] scan) :
    Clear p scan := by
  rcases h with h | ⟨q, h⟩
  · exact h
  · exact absurd (List.prefix_nil.mp h.next) h.ne_nil

private theorem fromList_run (s : List Char) :
    (charIndices 0 s).foldlM (ListScan.step s) {} =
        some (view s (Query.ListScan.run {} 0 false s)) ∧
      Clear s (Query.ListScan.run {} 0 false s) := by
  have hstart : Sound [] s {} := .inl ⟨fun _ h => absurd h List.not_mem_nil,
    fun _ h => absurd h List.not_mem_nil⟩
  obtain ⟨hrun, hsound⟩ := hstart.run
  exact ⟨hrun, hsound.clear⟩

/-- Every item of a list of tables begins and ends in the text, in this order and between
characters. -/
theorem within_fromListRanges {s : List Char} {range : Nat × Nat} (h : range ∈ fromListRanges s) :
    Within s range := by
  obtain ⟨-, hclear⟩ := fromList_run s
  rcases List.mem_append.mp h with h | h
  · exact hclear.items range h
  · obtain ⟨list, hlist, hrange⟩ := List.mem_flatMap.mp h
    exact (hclear.stack list hlist).ranges range hrange

private theorem fromListItems_eq (s : List Char) :
    fromListItems s = some (Query.fromListItems s) := by
  obtain ⟨hrun, hclear⟩ := fromList_run s
  have hlast : (Query.ListScan.run {} 0 false s).stack.mapM (itemsOf s · (byteLength s)) =
      some ((Query.ListScan.run {} 0 false s).stack.map fun list =>
        (list.ranges (byteLength s)).filterMap (cut s)) := by
    refine mapM_eq fun list hlist => ?_
    have h := (hclear.stack list hlist).itemsOf_eq []
    rwa [List.append_nil] at h
  have hranges : Query.fromListItems s =
      (view s (Query.ListScan.run {} 0 false s)).items ++
        ((Query.ListScan.run {} 0 false s).stack.map fun list =>
          (list.ranges (byteLength s)).filterMap (cut s)).flatten := by
    rw [← List.flatMap_def, ← List.filterMap_flatMap]
    exact List.filterMap_append
  rw [fromListItems, hrun, some_bind, hranges]
  simp only [view, hlast, some_bind]

/-- With its offsets checked, the search for tables finds the tables. -/
theorem tables_eq (s : List Char) (bound : List (List Char)) :
    tables s bound = some (Query.tables s bound) := by
  rw [tables, fromListItems_eq]
  rfl

end SqlReview.Checked

import Mathlib.Order.Bounds.Basic
import SqlReview.Proofs.Lexical.KeywordIn
import SqlReview.Proofs.Rule.ListTables
import SqlReview.Proofs.Search.MarkBehind
import SqlReview.Proofs.Text.Trim
import SqlReview.Proofs.Text.WordAt
import SqlReview.Rule.Textual

/-!
# Lists that the rule on lists of values measures

The rule finds a list in the text whose literals are blanked, where the parenthesis that closes it
is the first one too many, and takes its length from the text that is not blanked. This is the
length of the contents of the list in the statement. A list is left out when its contents begin with
the letters of `SELECT`, which is the case of a subquery, but also of a longer word.
-/

namespace SqlReview.Rule

open SqlReview.Text SqlReview.Lexical SqlReview.Search SqlReview.Query

/-! ### Contents of a list -/

/-- The text up to the parenthesis that closes more than the text opens, parentheses in literals
counting for nothing. It is the whole text if there is none. -/
def contentsOf (span : Option OpenSpan) (depth : Nat) : List Char → List Char
  | [] => []
  | c :: s =>
    if isContent isLiteralMark span c then c :: contentsOf (spanAfter span c) depth s
    else if c == ')' && depth == 0 then []
    else c :: contentsOf (spanAfter span c) (depthAfter depth c) s

/-- Whether a text holds a list with the given contents: outside of literals the word `IN` in any
case, and behind it a parenthesis that opens the list, blanks apart. -/
def HoldsList (t contents : List Char) : Prop :=
  ∃ u w g v, KeywordIn "IN" t u w (g ++ '(' :: v) ∧ isBlankText g = true ∧
    contents = contentsOf (markSpan u w g '(') 0 v

/-- Whether contents begin with the letters of `SELECT` in any case, blanks apart. -/
def beginsSelect (contents : List Char) : Bool :=
  sameText ((trimStart contents).take 6) "SELECT".toList

/-- Whether a word goes on behind the letters of `SELECT`. -/
def continuesSelect (contents : List Char) : Bool :=
  ((trimStart contents).drop 6).head?.any isWordChar

/-- Whether a text holds a list of values with the given contents: they do not begin with the whole
word `SELECT`, and with no longer word that begins with its letters either. -/
structure Measured (t contents : List Char) : Prop where
  list : HoldsList t contents
  values : ¬ (beginsSelect contents = true ∧ continuesSelect contents = false)
  plain : ¬ (beginsSelect contents = true ∧ continuesSelect contents = true)

private theorem measured_iff {t contents : List Char} :
    Measured t contents ↔ HoldsList t contents ∧ beginsSelect contents = false := by
  constructor
  · rintro ⟨hlist, hvalues, hplain⟩
    refine ⟨hlist, Bool.eq_false_iff.mpr fun hselect => ?_⟩
    cases h : continuesSelect contents with
    | false => exact hvalues ⟨hselect, h⟩
    | true => exact hplain ⟨hselect, h⟩
  · rintro ⟨hlist, hselect⟩
    refine ⟨hlist, ?_, ?_⟩ <;>
    · rintro ⟨h, -⟩
      rw [hselect] at h
      exact Bool.noConfusion h

example : beginsSelect " selected_id, 1".toList = true ∧
    continuesSelect " selected_id, 1".toList = true := by decide

/-! ### Contents in the blanked text -/

private theorem enclosed_fillers (depth n : Nat) (s : List Char) :
    enclosed depth (List.replicate n filler ++ s) =
      List.replicate n filler ++ enclosed depth s := by
  induction n with
  | zero => rfl
  | succ n ih =>
    rw [List.replicate_succ, List.cons_append, enclosed_cons_ne rfl]
    exact congrArg (filler :: ·) ih

/-- What a blanked text encloses is what the text encloses, blanked. -/
theorem enclosed_written (span : Option OpenSpan) (depth : Nat) (s : List Char) :
    enclosed depth (written isLiteralMark span s) =
      written isLiteralMark span (contentsOf span depth s) := by
  induction s generalizing span depth with
  | nil => rfl
  | cons c s ih =>
    rw [written, contentsOf]
    cases hcontent : isContent isLiteralMark span c with
    | true =>
      rw [content, if_pos rfl, enclosed_fillers, ih, if_pos rfl, written, hcontent]
      rfl
    | false =>
      rw [if_neg Bool.false_ne_true, content, if_neg Bool.false_ne_true, List.singleton_append]
      cases hclose : c == ')' && depth == 0 with
      | true =>
        rw [enclosed, hclose]
        rfl
      | false =>
        rw [enclosed_cons_ne hclose, ih, if_neg Bool.false_ne_true, written, hcontent]
        rfl

private theorem enclosed_upperAscii (depth : Nat) (s : List Char) :
    enclosed depth (upperAscii s) = upperAscii (enclosed depth s) := by
  have hopen : ∀ c : Char, (c.toUpper == '(') = (c == '(') := Folding.upper.of_beq (by decide)
  have hclose : ∀ c : Char, (c.toUpper == ')') = (c == ')') := Folding.upper.of_beq (by decide)
  induction s generalizing depth with
  | nil => rfl
  | cons c s ih =>
    change enclosed depth (c.toUpper :: upperAscii s) = _
    have hdepth : depthAfter depth c.toUpper = depthAfter depth c := by
      rw [depthAfter, depthAfter, hopen, hclose]
    rw [enclosed, enclosed, hclose, hdepth, ih]
    split <;> rfl

private theorem exists_contentsOf_append (span : Option OpenSpan) (depth : Nat) (s : List Char) :
    ∃ r, s = contentsOf span depth s ++ r := by
  induction s generalizing span depth with
  | nil => exact ⟨[], rfl⟩
  | cons c s ih =>
    rw [contentsOf]
    split
    · obtain ⟨r, hr⟩ := ih (spanAfter span c) depth
      exact ⟨r, congrArg (c :: ·) hr⟩
    · split
      · exact ⟨c :: s, rfl⟩
      · obtain ⟨r, hr⟩ := ih (spanAfter span c) (depthAfter depth c)
        exact ⟨r, congrArg (c :: ·) hr⟩

private theorem trimStart_select {w : List Char} (hw : sameText w "SELECT".toList = true)
    (r : List Char) : trimStart (w ++ r) = w ++ r := by
  have hlength : w.length = 6 := length_eq_of_sameText hw
  obtain ⟨c, w, rfl⟩ := List.exists_cons_of_length_pos (l := w) (by omega)
  have hletter : sameLetter c 'S' = true := by
    rw [sameText_iff] at hw
    exact beq_iff_eq.mpr (List.cons.inj hw).1
  have hc : isBlank c = false := isBlank_eq_of_sameLetter hletter
  exact List.dropWhile_cons_of_neg (by simp [hc])

private theorem isQuote_of_blanks_select {g w : List Char} (hg : isBlankText g = true)
    (hw : sameText w "SELECT".toList = true) : ∀ c ∈ g ++ w, isQuote c = false := by
  have hselect : IsShown "SELECT" := by decide
  intro c hc
  rcases List.mem_append.mp hc with hc | hc
  · exact isQuote_of_isBlankText hg c hc
  · exact hselect.isQuote_of_sameText hw c hc

/-- Contents outside of literals are taken for a subquery when they begin with the letters of
`SELECT`. -/
theorem isSubquery_upperAscii_written {span : Option OpenSpan}
    (h : outside isLiteralMark span = true) (s : List Char) :
    isSubquery (upperAscii (written isLiteralMark span s)) = beginsSelect s := by
  rw [isSubquery, Bool.eq_iff_iff, List.isPrefixOf_iff_prefix]
  constructor
  · rintro ⟨x, hx⟩
    obtain ⟨g, hg, hsplit⟩ := exists_trimStart (upperAscii (written isLiteralMark span s))
    rw [← hx] at hsplit
    obtain ⟨g', y, hy, hg', hxy⟩ := List.map_eq_append_iff.mp hsplit
    obtain ⟨w, y, rfl, hw, -⟩ := List.map_eq_append_iff.mp hxy
    have hblank : isBlankText g' = true := by
      rw [isBlankText_eq_of_sameText (sameText_upperAscii g'), upperAscii, hg', hg]
    have hword : sameText w "SELECT".toList = true := hw ▸ sameText_upperAscii w
    rw [← List.append_assoc] at hy
    obtain ⟨r, rfl, -⟩ := exists_of_written_eq_append h (isQuote_of_blanks_select hblank hword) hy
    have hlength : w.length = 6 := length_eq_of_sameText hword
    rw [beginsSelect, List.append_assoc, trimStart_append hblank, trimStart_select hword,
      ← hlength, List.take_left]
    exact hword
  · intro hword
    obtain ⟨g, hg, hsplit⟩ := exists_trimStart s
    rw [beginsSelect] at hword
    generalize hw : (trimStart s).take 6 = w at hword
    have hs : s = (g ++ w) ++ (trimStart s).drop 6 := by
      rw [← hw, List.append_assoc, List.take_append_drop]
      exact hsplit
    rw [hs, written_unquoted_append h (isQuote_of_blanks_select hg hword), upperAscii,
      List.map_append, List.map_append, List.append_assoc]
    change _ <+: trimStart (upperAscii g ++ (upperAscii w ++ _))
    rw [upperAscii_of_isBlankText hg, trimStart_append hg, upperAscii_eq_of_sameText hword]
    exact ⟨_, (trimStart_select rfl _).symm⟩

/-! ### Where lists begin -/

private theorem getLast?_inList (g : List Char) :
    ("IN".toList ++ (g ++ ['('])).getLast? = some '(' := by
  rw [← List.append_assoc, List.getLast?_concat]

/-- The phrase is read where a word begins with `IN` and a parenthesis behind it. -/
theorem read_inList_iff {p q : Place} : inList.read p = some q ↔
    p.before.any isWordChar = false ∧
      ∃ g, isBlankText g = true ∧ p.Before ("IN".toList ++ (g ++ ['('])) q := by
  have hcls : ∀ c, isBlank c = true → (c == '(') = false := by
    intro c hc
    exact beq_of_isBlank hc (by decide)
  have hread : inList.read p = some q ↔ p.atBoundary = true ∧
      ∃ r, p.Before "IN".toList r ∧ ∃ g c, isBlankText g = true ∧ (c == '(') = true ∧
        r.Before (g ++ [c]) q := by
    refine Phrase.read_boundary_seq_iff.trans (and_congr_right fun _ => ?_)
    refine Option.bind_eq_some_iff.trans (exists_congr fun r => ?_)
    exact and_congr Phrase.read_exactly_iff (Phrase.read_blanks_one_iff hcls)
  have hboundary : ∀ r, p.Before "IN".toList r →
      p.atBoundary = !p.before.any isWordChar := by
    intro r hr
    refine Place.atBoundary_of_isWordChar ?_
    rw [hr.rest]
    exact (by decide : isWordChar 'I' = true)
  rw [hread]
  constructor
  · rintro ⟨hat, r, hr, g, c, hg, hc, hq⟩
    obtain rfl : c = '(' := beq_iff_eq.mp hc
    rw [hboundary r hr] at hat
    exact ⟨by simpa using hat, g, hg, hr.trans hq⟩
  · rintro ⟨hbefore, g, hg, hrest, hlast⟩
    have hr : p.Before "IN".toList ⟨some 'N', g ++ '(' :: q.rest⟩ :=
      ⟨by rw [hrest]; simp, rfl⟩
    refine ⟨by rw [hboundary _ hr, hbefore]; rfl, _, hr, g, '(', hg, rfl, by simp, ?_⟩
    rw [hlast, getLast?_inList, List.getLast?_concat]
    rfl

private theorem wordFirst_inList : inList.WordFirst := by
  have hword : ∀ c, (c == '(') = true → isWordChar c = false := by
    intro c hc
    obtain rfl : c = '(' := beq_iff_eq.mp hc
    decide
  exact ((Phrase.takes_exactly (by decide)).takesWord (Phrase.moves_exactly (by decide))
    (Phrase.takes_blanks_one hword)).boundary

variable {t u w g v : List Char}

private theorem outside_markSpan (hk : KeywordIn "IN" t u w (g ++ '(' :: v))
    (hg : isBlankText g = true) :
    outside isLiteralMark (markSpan u w g '(') = true := by
  rw [← spanAfter_mark]
  exact outside_spanAfter (hk.outside_behind (by decide) hg) rfl

/-- The lists of a blanked text are the lists of the text. -/
theorem mem_remainders_inList_iff {x : List Char} :
    x ∈ remainders inList (upperAscii (blankLiterals t)) ↔
      ∃ u w g v, KeywordIn "IN" t u w (g ++ '(' :: v) ∧ isBlankText g = true ∧
        x = upperAscii (written isLiteralMark (markSpan u w g '(') v) := by
  have hin : IsShown "IN" := by decide
  rw [wordFirst_inList.mem_remainders_iff]
  constructor
  · rintro ⟨u, y, q, hsplit, hread, rfl⟩
    obtain ⟨hu, g, hg, hrest, -⟩ := read_inList_iff.mp hread
    obtain rfl : y = "IN".toList ++ (g ++ ['(']) ++ q.rest := hrest
    rw [List.append_assoc, List.append_assoc, List.singleton_append] at hsplit
    obtain ⟨p, w, v, hk, hv⟩ := exists_keywordIn_mark hin (by decide) hg hu hsplit
    exact ⟨p, w, g, v, hk, hg, hv.symm⟩
  · rintro ⟨u, w, g, v, hk, hg, rfl⟩
    obtain ⟨hsplit, hu⟩ := hk.upperAscii_blankLiterals_mark hin (by decide) hg
    refine ⟨_, _, ⟨some '(', _⟩, hsplit, read_inList_iff.mpr ⟨hu, g, hg, ?_, ?_⟩, rfl⟩
    · simp [upperAscii]
    · rw [getLast?_inList]
      rfl

/-! ### Lengths of lists -/

/-- The range of a list in a text reaches from behind the parenthesis to the end of what the
parenthesis encloses. -/
theorem inListRange_eq {a x : List Char} {found : Occurrence} (h : found.stop.rest = x) :
    inListRange (closings (a ++ '(' :: x)) (byteLength (a ++ '(' :: x)) found =
      (byteLength a + 1, byteLength a + 1 + byteLength (enclosed 0 x)) := by
  have hlength : byteLength (a ++ '(' :: x) = byteLength a + 1 + byteLength x := by
    rw [byteLength_append, byteLength_cons, Nat.add_assoc]
    rfl
  have hstart : byteLength (a ++ '(' :: x) - byteLength x = byteLength a + 1 := by omega
  rw [inListRange, h, hstart, getElem?_closings, hlength]
  congr 1
  split
  · next hall => rw [Option.getD_none, hall]
  · rw [Option.getD_some]

/-- A list is cut out of the blanked text with its contents blanked, and it is as long as its
contents are in the statement. -/
theorem measure_list (hk : KeywordIn "IN" t u w (g ++ '(' :: v)) (hg : isBlankText g = true)
    {found : Occurrence}
    (hfound : found.stop.rest = upperAscii (written isLiteralMark (markSpan u w g '(') v)) :
    let blanked := upperAscii (blankLiterals t)
    let range := inListRange (closings blanked) (byteLength blanked) found
    let contents := contentsOf (markSpan u w g '(') 0 v
    slice? blanked range.1 range.2 =
        some (upperAscii (written isLiteralMark (markSpan u w g '(') contents)) ∧
      charsBetween (charsBefore (upperAscii t)) range = contents.length := by
  intro blanked range contents
  obtain ⟨r, hr⟩ := exists_contentsOf_append (markSpan u w g '(') 0 v
  have hlength := hk.byteLength_mark
  generalize ha : upperAscii (written isLiteralMark none u) ++ ("IN".toList ++ g) = a
  have hblanked : blanked =
      a ++ '(' :: upperAscii (written isLiteralMark (markSpan u w g '(') v) := by
    rw [← ha]
    exact (hk.upperAscii_blankLiterals_mark (by decide) (by decide) hg).1.trans (by simp)
  have hopen : byteLength a + 1 = byteLength (u ++ (w ++ (g ++ ['(']))) := by
    rw [← hlength, ← List.append_assoc "IN".toList, ← List.append_assoc, ha, byteLength_append]
    rfl
  have henclosed : enclosed 0 (upperAscii (written isLiteralMark (markSpan u w g '(') v)) =
      upperAscii (written isLiteralMark (markSpan u w g '(') contents) := by
    rw [enclosed_upperAscii, enclosed_written]
  have hrange : range = (byteLength a + 1, byteLength a + 1 +
      byteLength (upperAscii (written isLiteralMark (markSpan u w g '(') contents))) := by
    change inListRange (closings blanked) (byteLength blanked) found = _
    rw [hblanked, inListRange_eq hfound, henclosed]
  constructor
  · have hsplit : blanked = (a ++ ['(']) ++
        (upperAscii (written isLiteralMark (markSpan u w g '(') contents) ++
          upperAscii (written isLiteralMark (spanBehind (markSpan u w g '(') contents) r)) := by
      rw [hblanked, hr, written_append]
      simp [upperAscii, contents]
    have hfront : byteLength a + 1 = byteLength (a ++ ['(']) := (byteLength_append a ['(']).symm
    rw [hrange, hsplit, hfront]
    exact slice?_byteLength _ _ _
  · have htext : upperAscii t = upperAscii (u ++ (w ++ (g ++ ['(']))) ++
        (upperAscii contents ++ upperAscii r) := by
      rw [hk.text, hr]
      simp [upperAscii, contents]
    have hfirst := getElem?_charsBefore (upperAscii (u ++ (w ++ (g ++ ['(']))))
      (upperAscii contents ++ upperAscii r)
    have hsecond := getElem?_charsBefore
      (upperAscii (u ++ (w ++ (g ++ ['(']))) ++ upperAscii contents) (upperAscii r)
    rw [List.append_assoc, ← htext, byteLength_append] at hsecond
    rw [← htext] at hfirst
    rw [hrange, charsBetween]
    simp only [hopen, byteLength_upperAscii, byteLength_written] at hfirst hsecond ⊢
    rw [hfirst, hsecond]
    simp

/-- A length is that of a list that is cut out of the blanked text and is no subquery there. -/
theorem mem_inListLengths {blanked normalized : List Char} {n : Nat} :
    n ∈ inListLengths blanked normalized ↔ ∃ found ∈ occurrences inList blanked,
      let range := inListRange (closings blanked) (byteLength blanked) found
      ∃ contents, slice? blanked range.1 range.2 = some contents ∧
        isSubquery contents = false ∧ charsBetween (charsBefore normalized) range = n := by
  simp only [inListLengths, List.mem_filterMap, List.mem_map, exists_exists_and_eq_and, bind,
    Option.bind_eq_some_iff]
  refine exists_congr fun found => and_congr_right fun _ => exists_congr fun contents =>
    and_congr_right fun _ => ?_
  cases isSubquery contents <;> simp

/-- The lengths that the rule compares are those of the lists whose contents do not begin with the
letters of `SELECT`. -/
theorem mem_inListLengths_iff {n : Nat} :
    n ∈ inListLengths (upperAscii (blankLiterals t)) (upperAscii t) ↔
      ∃ contents, Measured t contents ∧ contents.length = n := by
  rw [mem_inListLengths]
  constructor
  · rintro ⟨found, hfound, contents, hslice, hselect, rfl⟩
    obtain ⟨u, w, g, v, hk, hg, hrest⟩ := mem_remainders_inList_iff.mp
      (List.mem_map_of_mem (f := (·.stop.rest)) hfound)
    obtain ⟨hcut, hlength⟩ := measure_list hk hg hrest
    obtain rfl := Option.some.inj (hslice.symm.trans hcut)
    rw [isSubquery_upperAscii_written (outside_markSpan hk hg)] at hselect
    exact ⟨_, measured_iff.mpr ⟨⟨u, w, g, v, hk, hg, rfl⟩, hselect⟩, hlength.symm⟩
  · rintro ⟨contents, hmeasured, rfl⟩
    obtain ⟨⟨u, w, g, v, hk, hg, rfl⟩, hselect⟩ := measured_iff.mp hmeasured
    obtain ⟨found, hfound, hrest⟩ := List.mem_map.mp
      (mem_remainders_inList_iff.mpr ⟨u, w, g, v, hk, hg, rfl⟩)
    obtain ⟨hcut, hlength⟩ := measure_list hk hg hrest
    refine ⟨found, hfound, _, hcut, ?_, hlength⟩
    rw [isSubquery_upperAscii_written (outside_markSpan hk hg)]
    exact hselect

/-- The greatest length that the rule compares is the greatest length of a list. -/
theorem max?_inListLengths_iff {n : Nat} :
    (inListLengths (upperAscii (blankLiterals t)) (upperAscii t)).max? = some n ↔
      IsGreatest {k | ∃ contents, Measured t contents ∧ contents.length = k} n := by
  rw [List.max?_eq_some_iff]
  refine and_congr mem_inListLengths_iff ⟨fun h k hk => ?_, fun h k hk => ?_⟩
  · exact h k (mem_inListLengths_iff.mpr hk)
  · exact h (mem_inListLengths_iff.mp hk)

/-- The rule on lists of values fires if and only if the statement without its comments holds a list
of values of five hundred characters or more, and it reports the greatest length of one. A list of
values is opened by a parenthesis behind the word `IN`, outside of literals, and goes on to the
parenthesis that closes it, or to the end where none does. A list whose contents begin with a longer
word that begins with `SELECT` is passed over as a subquery is. -/
theorem largeInList_measures_lists (s : List Char) (metrics : Metrics) :
    ((largeInList.check (Subject.of s metrics)).isSome = true ↔
        ∃ contents, Measured (removeComments s) contents ∧
          largeInListChars ≤ contents.length) ∧
      ∀ finding, largeInList.check (Subject.of s metrics) = some finding →
        ∃ n, finding.description = s!"An IN list spans {n} characters" ∧
          IsGreatest {k | ∃ contents, Measured (removeComments s) contents ∧
            contents.length = k} n := by
  generalize hlengths : inListLengths (upperAscii (blankLiterals (removeComments s)))
    (upperAscii (removeComments s)) = lengths
  have hcheck : largeInList.check (Subject.of s metrics) = lengths.max?.bind fun longest =>
      findWhen (longest ≥ largeInListChars) s!"An IN list spans {longest} characters"
        "Load the values into a temporary table or a Set and join against it" := by
    rw [← hlengths]
    rfl
  have hmax : ∀ n, lengths.max? = some n ↔ IsGreatest {k | ∃ contents,
      Measured (removeComments s) contents ∧ contents.length = k} n := by
    intro n
    rw [← hlengths, max?_inListLengths_iff]
  rw [hcheck]
  refine ⟨⟨fun h => ?_, ?_⟩, fun finding hfinding => ?_⟩
  · obtain ⟨finding, hfinding⟩ := Option.isSome_iff_exists.mp h
    obtain ⟨n, hn, hfound⟩ := Option.bind_eq_some_iff.mp hfinding
    obtain ⟨⟨contents, hmeasured, rfl⟩, -⟩ := (hmax n).mp hn
    exact ⟨contents, hmeasured, of_decide_eq_true (findWhen_eq_some_iff.mp hfound).1⟩
  · rintro ⟨contents, hmeasured, hlong⟩
    have hmem : contents.length ∈ lengths :=
      hlengths ▸ mem_inListLengths_iff.mpr ⟨contents, hmeasured, rfl⟩
    obtain ⟨n, hn⟩ := Option.isSome_iff_exists.mp (List.isSome_max?_of_mem hmem)
    have hle : contents.length ≤ n := ((hmax n).mp hn).2 ⟨contents, hmeasured, rfl⟩
    rw [hn, Option.bind_some, isSome_findWhen]
    exact decide_eq_true (Nat.le_trans hlong hle)
  · obtain ⟨n, hn, hfound⟩ := Option.bind_eq_some_iff.mp hfinding
    obtain rfl := (findWhen_eq_some_iff.mp hfound).2
    exact ⟨n, rfl, (hmax n).mp hn⟩

/-- A list of five hundred characters is reported. Behind a column whose name begins with `select`
the same values are passed over, although the contents are no subquery. -/
theorem largeInList_behind_column :
    let values := "a IN (".toList ++ List.replicate 500 '1'
    let selected := "a IN (selected, ".toList ++ List.replicate 500 '1'
    (∃ finding n, largeInList.check (Subject.of values {}) = some finding ∧
      finding.description = s!"An IN list spans {n} characters" ∧
      IsGreatest {k | ∃ contents, Measured (removeComments values) contents ∧
        contents.length = k} n) ∧
    (∃ contents, HoldsList (removeComments selected) contents ∧
      largeInListChars ≤ contents.length ∧ continuesSelect contents = true) ∧
    largeInList.check (Subject.of selected {}) = none := by
  intro values selected
  have hfires : (largeInList.check (Subject.of values {})).isSome = true := by decide +kernel
  obtain ⟨finding, hfinding⟩ := Option.isSome_iff_exists.mp hfires
  obtain ⟨n, htext, hn⟩ := (largeInList_measures_lists values {}).2 finding hfinding
  have hplain : removeComments selected = "a ".toList ++ ("IN".toList ++
      (" ".toList ++ '(' :: ("selected, ".toList ++ List.replicate 500 '1'))) := by decide +kernel
  have hlist : HoldsList (removeComments selected) _ :=
    ⟨_, _, _, _, ⟨hplain, by decide, by decide, by decide⟩, by decide, rfl⟩
  exact ⟨⟨finding, n, hfinding, htext, hn⟩, ⟨_, hlist, by decide +kernel, by decide +kernel⟩,
    by decide +kernel⟩

end SqlReview.Rule

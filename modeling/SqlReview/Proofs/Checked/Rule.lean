import SqlReview.Proofs.Checked.FromList
import SqlReview.Proofs.Lexical.Literal
import SqlReview.Rule.Catalogue

/-!
# Checked rules

Two rules use an offset of the blanked text in the text that is not blanked. A blanked content has
as many bytes as the content, but other characters, so not every offset between two characters of
the one text is such an offset of the other. It is one next to every character that is no filler,
and a rule looks next to quotation marks and parentheses only.
-/

namespace SqlReview.Checked

open SqlReview.Text SqlReview.Lexical SqlReview.Search SqlReview.Query SqlReview.Rule

/-! ### The rules -/

/-- Whether the literal that an occurrence in the blanked text opens begins with a wildcard. -/
def opensWildcard (s : Subject) (found : Occurrence) : Checked Bool := do
  let rest ← dropBytes? (stopOffset s.blanked found) s.normalized
  some (rest.head? == some '%')

/-- The rule on leading wildcards, with every offset checked. -/
def leadingWildcard (s : Subject) : Checked (Option Finding) := do
  let found ← (occurrences likePattern s.blanked).anyM (opensWildcard s)
  some (findWhen found
    "A pattern starting with % forces a full scan of the column"
    "Anchor the pattern at the start, or use a token or ngram bloom filter index")

/-- The rule on functions of columns, with every offset checked. -/
def functionOnColumn (s : Subject) : Checked (Option Finding) := do
  let body ← clauseBody (.exactWords ["WHERE"]) s.blanked
  some do
    let condition ← body
    let function ← wrappingFunction? condition
    some {
      description :=
        s!"WHERE applies {function}() to a column, so the primary key cannot prune it"
      suggestion := "Compare the raw column against a transformed constant instead" }

/-- The rule on subqueries in the select list, with every offset checked. -/
def correlatedSubquery (s : Subject) : Checked (Option Finding) := do
  let main ← mainQuery s.blanked
  let selected ← selectList main
  some do
    let list ← selected
    findWhen (holds scalarSubquery list)
      "A subquery in the select list can run once per output row"
      "Rewrite it as a JOIN or a window function"

/-- The byte offsets of the contents of the lists of values. -/
def inListRanges (s : Subject) : List (Nat × Nat) :=
  (occurrences inList s.blanked).map (inListRange (closings s.blanked) (byteLength s.blanked))

/-- The number of characters between two byte offsets. -/
def charsBetween (counts : Array Nat) (range : Nat × Nat) : Checked Nat := do
  let after ← counts[range.2]?
  let before ← counts[range.1]?
  minus after before

/-- The length of a list of values, unless it is a subquery. -/
def inListLength (s : Subject) (counts : Array Nat) (range : Nat × Nat) :
    Checked (Option Nat) := do
  let contents ← cut s.blanked range
  if isSubquery contents then some none
  else
    let length ← charsBetween counts range
    some (some length)

/-- The lengths of the lists of values, subqueries apart. -/
def inListLengths (s : Subject) : Checked (List Nat) := do
  let lengths ← (inListRanges s).mapM (inListLength s (charsBefore s.normalized))
  some (lengths.filterMap id)

/-- The rule on long lists of values, with every offset checked. -/
def largeInList (s : Subject) : Checked (Option Finding) :=
  if holds inList s.blanked then do
    let lengths ← inListLengths s
    some do
      let longest ← lengths.max?
      findWhen (longest ≥ largeInListChars)
        s!"An IN list spans {longest} characters"
        "Load the values into a temporary table or a Set and join against it"
  else some none

/-- The rule on grouping keys, with every offset checked. -/
def groupByExpression (s : Subject) : Checked (Option Finding) := do
  let body ← clauseBody (.exactWords ["GROUP", "BY"]) s.blanked
  some do
    let keys ← body
    findWhen (keys.contains '(')
      "Grouping keys are computed for every row"
      "Materialize the expression as a column"

/-- A rule, and its check with every offset checked. -/
structure CheckedRule where
  rule : Rule
  check : Subject → Checked (Option Finding)

/-- A rule whose check uses no offset. -/
def CheckedRule.plain (r : Rule) : CheckedRule where
  rule := r
  check s := some (r.check s)

/-- Every rule, in the order of the catalogue. -/
def catalogue : List CheckedRule := [
  .plain selectStar, .plain orderWithoutLimit, .plain largeJoin, .plain deepNesting,
  .plain prewhereOpportunity, .plain missingLimit, .plain wideDistinct, .plain manyAggregations,
  .plain manyColumns, .plain cartesianProductRisk,
  ⟨Rule.leadingWildcard, leadingWildcard⟩, .plain negatedMembership, .plain unionWithoutAll,
  ⟨Rule.functionOnColumn, functionOnColumn⟩, .plain aggregationWithoutGroupBy,
  ⟨Rule.correlatedSubquery, correlatedSubquery⟩, ⟨Rule.largeInList, largeInList⟩,
  .plain manyOrConditions, .plain finalKeyword, ⟨Rule.groupByExpression, groupByExpression⟩]

/-- The enabled rules in their effective tiers. -/
def enabled (settings : Settings) : List CheckedRule :=
  let folded := Settings.merge {} settings
  (catalogue.filter fun r => !folded.disables r.rule.entry.id).map fun r =>
    { r with rule := r.rule.under folded }

/-- The recommendations of some rules for a statement, in the order of a report. -/
def evaluate (rules : List CheckedRule) (s : Subject) : Checked (List Recommendation) := do
  let fired ← rules.mapM fun r => do
    let finding ← r.check s
    some (finding.map r.rule.entry.recommend)
  some (sortByTier (fired.filterMap id))

/-! ### Offsets of both texts -/

/-- Whether an offset of a text lies between two characters or at an end. -/
def Boundary (text : List Char) (offset : Nat) : Prop :=
  ∃ a b, text = a ++ b ∧ offset = byteLength a

/-- At a boundary a text can be cut. -/
theorem Boundary.dropBytes? {text : List Char} {offset : Nat} (h : Boundary text offset) :
    (dropBytes? offset text).isSome = true := by
  obtain ⟨a, b, rfl, rfl⟩ := h
  rw [dropBytes?_byteLength]
  rfl

private theorem Boundary.le {text : List Char} {offset : Nat} (h : Boundary text offset) :
    offset ≤ byteLength text := by
  obtain ⟨a, b, rfl, rfl⟩ := h
  rw [byteLength_append]
  omega

private theorem boundary_end (text : List Char) : Boundary text (byteLength text) :=
  ⟨text, [], (List.append_nil text).symm, rfl⟩

private theorem Boundary.within {text : List Char} {start stop : Nat} (hstart : Boundary text start)
    (hstop : Boundary text stop) (hle : start ≤ stop) : Within text (start, stop) := by
  obtain ⟨a, b, hab, rfl⟩ := hstart
  obtain ⟨c, d, hcd, rfl⟩ := hstop
  rcases List.append_eq_append_iff.mp (hab.symm.trans hcd) with ⟨w, rfl, rfl⟩ | ⟨w, rfl, rfl⟩
  · exact ⟨a, w, d, hab, rfl⟩
  · have hw : w = [] := by
      rw [byteLength_append] at hle
      exact byteLength_eq_zero_iff.mp (by omega)
    subst hw
    exact ⟨c, [], b, by simpa using hab, by simp⟩

/-- Whether every character of a text but a certain one stands at the same offset in another. -/
def StandsIn (skipped : Char) (blanked text : List Char) : Prop :=
  ∀ a d t, blanked = a ++ d :: t → d ≠ skipped →
    ∃ a' t', text = a' ++ d :: t' ∧ byteLength a' = byteLength a

private theorem StandsIn.cons {blanked text : List Char} (h : StandsIn filler blanked text)
    (c : Char) : StandsIn filler (c :: blanked) (c :: text) := by
  intro a d t hsplit hd
  cases a with
  | nil =>
    obtain ⟨rfl, rfl⟩ := List.cons.inj hsplit
    exact ⟨[], text, rfl, rfl⟩
  | cons e a =>
    obtain ⟨rfl, hrest⟩ := List.cons.inj hsplit
    obtain ⟨a', t', rfl, hlength⟩ := h a d t hrest hd
    exact ⟨c :: a', t', rfl, by rw [byteLength_cons, byteLength_cons, hlength]⟩

/-- Fillers in the place of a character stand for nothing. -/
theorem StandsIn.content {blanked text : List Char} (h : StandsIn filler blanked text) (b : Bool)
    (c : Char) : StandsIn filler (content b c ++ blanked) (c :: text) := by
  cases b with
  | false => exact h.cons c
  | true =>
    intro a d t hsplit hd
    have hlength := byteLength_content true c
    rcases List.append_eq_append_iff.mp hsplit with ⟨w, rfl, hw⟩ | ⟨w, hw, hrest⟩
    · obtain ⟨a', t', rfl, hbefore⟩ := h w d t hw hd
      exact ⟨c :: a', t', rfl, by rw [byteLength_cons, byteLength_append, hlength, hbefore]⟩
    · cases w with
      | nil =>
        rw [List.append_nil] at hw
        obtain ⟨a', t', rfl, hbefore⟩ := h [] d t hrest.symm hd
        exact ⟨c :: a', t', rfl, by rw [byteLength_cons, ← hw, hlength, hbefore]; rfl⟩
      | cons e w =>
        obtain ⟨rfl, -⟩ := List.cons.inj hrest
        have hmem : d ∈ Lexical.content true c := by
          rw [hw]
          simp
        exact absurd (List.eq_of_mem_replicate hmem) hd

private theorem standsIn_blankFrom (filled : Char → Bool) (mark : Option Char) (s : List Char) :
    StandsIn filler (blankFrom filled mark s) s := by
  fun_induction blankFrom filled mark s with
  | case1 mark => exact fun a d t hsplit => absurd hsplit (by simp)
  | case2 c s ih => exact ih.cons c
  | case3 m c s ih =>
    rw [List.append_assoc]
    exact (ih.content _ c).content _ '\\'
  | case4 m s hc ih => exact ih.cons m
  | case5 m c s hc hm ih => exact ih.content _ c

private theorem StandsIn.upperAscii {blanked text : List Char} (h : StandsIn filler blanked text) :
    StandsIn 'X' (upperAscii blanked) (upperAscii text) := by
  intro a d t hsplit hd
  obtain ⟨a, u, rfl, rfl, hu⟩ := List.map_eq_append_iff.mp hsplit
  obtain ⟨e, t, rfl, rfl, rfl⟩ := List.map_eq_cons_iff.mp hu
  have he : e ≠ filler := by
    rintro rfl
    exact hd rfl
  obtain ⟨a', t', rfl, hlength⟩ := h a e t rfl he
  refine ⟨Text.upperAscii a', Text.upperAscii t', by simp [Text.upperAscii], ?_⟩
  have hupper := byteLength_upperAscii a
  rw [byteLength_upperAscii, hlength, ← hupper]
  rfl

/-- Two texts of one statement, one of them blanked, with the same byte offsets. -/
structure Aligned (s : Subject) : Prop where
  length : byteLength s.blanked = byteLength s.normalized
  stands : StandsIn 'X' s.blanked s.normalized

/-- The two texts of a subject have the same offsets. -/
theorem aligned_of (s : List Char) (metrics : Metrics) : Aligned (Subject.of s metrics) where
  length := by
    simp only [Subject.of, byteLength_upperAscii, blankLiterals, byteLength_blankFrom]
  stands := (standsIn_blankFrom _ none (removeComments s)).upperAscii

/-- The offsets before and behind a character of the blanked text that is no filler are offsets of
both texts. -/
theorem Aligned.boundary {s : Subject} (h : Aligned s) {a t : List Char} {d : Char}
    (hsplit : s.blanked = a ++ d :: t) (hd : d ≠ 'X') :
    Boundary s.normalized (byteLength a) ∧ Boundary s.normalized (byteLength (a ++ [d])) := by
  obtain ⟨a', t', htext, hlength⟩ := h.stands a d t hsplit hd
  refine ⟨⟨a', d :: t', htext, hlength.symm⟩, ⟨a' ++ [d], t', by simp [htext], ?_⟩⟩
  rw [byteLength_concat, byteLength_concat, hlength]

/-- An occurrence in the blanked text that ends with a character other than a filler ends at an
offset of both texts. -/
theorem Aligned.stopOffset {s : Subject} (h : Aligned s) {phrase : Phrase} {cls : Char → Bool}
    (hends : phrase.EndsIn cls) (hcls : cls 'X' = false) {found : Occurrence}
    (hfound : found ∈ occurrences phrase s.blanked) :
    Boundary s.blanked (stopOffset s.blanked found) ∧
      Boundary s.normalized (stopOffset s.blanked found) := by
  obtain ⟨c, hc, a, ha⟩ := hends.occurrences hfound
  have hne : c ≠ 'X' := by
    rintro rfl
    rw [hcls] at hc
    exact Bool.false_ne_true hc
  have hoffset : Checked.stopOffset s.blanked found = byteLength (a ++ [c]) := by
    rw [Checked.stopOffset, ← ha, byteLength_append, byteLength_cons, byteLength_concat]
    omega
  rw [hoffset]
  exact ⟨⟨a ++ [c], found.stop.rest, by simp [← ha], rfl⟩, (h.boundary ha.symm hne).2⟩

/-! ### Leading wildcards -/

/-- A `LIKE` that is found in the blanked text ends at an offset of both texts. -/
theorem Aligned.likePattern {s : Subject} (h : Aligned s) {found : Occurrence}
    (hfound : found ∈ occurrences likePattern s.blanked) :
    Boundary s.normalized (Checked.stopOffset s.blanked found) := by
  have hends : Rule.likePattern.EndsIn fun c => c == apostrophe || c == doubleQuote :=
    Phrase.endsIn_one.all [.boundary, .opt (.exactly "I"), .exactly "LIKE", .gap]
  exact (h.stopOffset hends rfl hfound).2

private theorem opensWildcard_eq {s : Subject} (h : Aligned s) {found : Occurrence}
    (hfound : found ∈ occurrences likePattern s.blanked) :
    opensWildcard s found = some (Rule.opensWildcard s found) := by
  obtain ⟨rest, hrest⟩ := Option.isSome_iff_exists.mp (h.likePattern hfound).dropBytes?
  have hoffset : byteLength s.blanked - byteLength found.stop.rest =
      stopOffset s.blanked found := rfl
  rw [opensWildcard, Rule.opensWildcard, hoffset, hrest]
  rfl

private theorem leadingWildcard_eq {s : Subject} (h : Aligned s) :
    leadingWildcard s = some (Rule.leadingWildcard.check s) := by
  rw [leadingWildcard, anyM_eq fun found hfound => opensWildcard_eq h hfound]
  rfl

/-! ### Lists of values -/

/-- What is known of the closing parentheses that have been found: each closes a parenthesis that
was opened before it. -/
def Closing (text : List Char) (found : Std.TreeMap Nat Nat) : Prop :=
  ∀ start stop : Nat, found[start]? = some stop →
    start ≤ stop ∧ ∃ a t, text = a ++ ')' :: t ∧ stop = byteLength a

private theorem Closing.insert {text a t : List Char} {found : Std.TreeMap Nat Nat}
    (h : Closing text found) (htext : text = a ++ ')' :: t) {start : Nat}
    (hstart : start ≤ byteLength a) : Closing text (found.insert start (byteLength a)) := by
  intro k stop hk
  rw [Std.TreeMap.getElem?_insert] at hk
  split at hk
  · next hcompare =>
    obtain rfl : start = k := by simpa using hcompare
    obtain rfl := Option.some.inj hk
    exact ⟨hstart, a, t, htext, rfl⟩
  · exact h k stop hk

/-- A parenthesis is closed behind the place where it was opened. -/
theorem closing_closingsFrom {text p s : List Char} (htext : text = p ++ s) {opened : List Nat}
    (hopened : ∀ start ∈ opened, start ≤ byteLength p) {found : Std.TreeMap Nat Nat}
    (h : Closing text found) : Closing text (closingsFrom (byteLength p) opened found s) := by
  induction s generalizing p opened found with
  | nil => exact h
  | cons c s ih =>
    have hnext : text = (p ++ [c]) ++ s := by rw [htext, List.append_cons]
    have hle : ∀ start ∈ opened, start ≤ byteLength (p ++ [c]) := by
      intro start hstart
      rw [byteLength_concat]
      exact Nat.le_add_right_of_le (hopened start hstart)
    rw [closingsFrom.eq_def]
    simp only [← byteLength_concat]
    split
    · refine ih hnext (fun start hstart => ?_) h
      rcases List.mem_cons.mp hstart with rfl | hstart
      · exact Nat.le_refl _
      · exact hle start hstart
    · split
      · next hclose =>
        obtain rfl : c = ')' := by simpa using hclose
        cases opened with
        | nil => exact ih hnext hle h
        | cons start opened =>
          exact ih hnext (fun k hk => hle k (List.mem_cons_of_mem start hk))
            (h.insert htext (hopened start (List.mem_cons_self ..)))
      · exact ih hnext hle h

private theorem closing_closings (text : List Char) : Closing text (closings text) :=
  closing_closingsFrom (p := []) rfl (fun _ h => absurd h List.not_mem_nil)
    fun start stop h => by simp at h

/-- The contents of a list of values are a part of both texts. -/
theorem Aligned.inListRanges {s : Subject} (h : Aligned s) {range : Nat × Nat}
    (hrange : range ∈ inListRanges s) : Within s.blanked range ∧ Within s.normalized range := by
  obtain ⟨found, hfound, rfl⟩ := List.mem_map.mp hrange
  have hends : inList.EndsIn (· == '(') :=
    Phrase.endsIn_one.all [.boundary, .exactly "IN", .blanks]
  obtain ⟨hblanked, hnormalized⟩ := h.stopOffset hends (by decide) hfound
  simp only [inListRange]
  cases hclosed : (closings s.blanked)[byteLength s.blanked - byteLength found.stop.rest]? with
  | some stop =>
    obtain ⟨hle, a, t, hsplit, rfl⟩ := closing_closings s.blanked _ stop hclosed
    have hstop := (h.boundary hsplit (by decide)).1
    exact ⟨hblanked.within ⟨a, _, hsplit, rfl⟩ hle, hnormalized.within hstop hle⟩
  | none =>
    have hle := hblanked.le
    refine ⟨hblanked.within (boundary_end _) hle, hnormalized.within ?_ hle⟩
    rw [Option.getD_none, h.length]
    exact boundary_end _

private theorem length_charsBeforeFrom (n : Nat) (s : List Char) :
    (charsBeforeFrom n s).length = byteLength s := by
  induction s generalizing n with
  | nil => rfl
  | cons c s ih =>
    rw [charsBeforeFrom, List.length_append, List.length_replicate, ih, byteLength_cons]

private theorem pairwise_charsBeforeFrom (n : Nat) (s : List Char) :
    (n :: charsBeforeFrom n s).Pairwise (· ≤ ·) := by
  induction s generalizing n with
  | nil => exact List.pairwise_singleton ..
  | cons c s ih =>
    obtain ⟨hle, hrest⟩ := List.pairwise_cons.mp (ih (n + 1))
    have hbytes : ∀ m ∈ List.replicate c.utf8Size (n + 1), m = n + 1 := fun m =>
      List.eq_of_mem_replicate
    rw [charsBeforeFrom]
    refine List.pairwise_cons.mpr ⟨fun m hm => ?_, List.pairwise_append.mpr
      ⟨List.pairwise_replicate.mpr (.inr (Nat.le_refl _)), hrest, fun m hm k hk => ?_⟩⟩
    · rcases List.mem_append.mp hm with hm | hm
      · rw [hbytes m hm]
        exact Nat.le_succ n
      · exact Nat.le_of_succ_le (hle m hm)
    · rw [hbytes m hm]
      exact hle k hk

/-- Both ends of a range have a number of characters before them, and the second has no fewer. -/
theorem exists_charsBefore {text : List Char} {range : Nat × Nat} (h : Within text range) :
    ∃ before after, (charsBefore text)[range.1]? = some before ∧
      (charsBefore text)[range.2]? = some after ∧ before ≤ after := by
  have hle := h.le
  have hstop : range.2 < (0 :: charsBeforeFrom 0 text).length := by
    obtain ⟨a, w, b, rfl, rfl⟩ := h
    rw [List.length_cons, length_charsBeforeFrom]
    simp only [byteLength_append]
    omega
  have hstart : range.1 < (0 :: charsBeforeFrom 0 text).length := by omega
  have hsorted := List.pairwise_iff_getElem.mp (pairwise_charsBeforeFrom 0 text)
  refine ⟨(0 :: charsBeforeFrom 0 text)[range.1], (0 :: charsBeforeFrom 0 text)[range.2],
    by simp [charsBefore], by simp [charsBefore], ?_⟩
  rcases Nat.eq_or_lt_of_le hle with heq | hlt
  · simp only [heq, Nat.le_refl]
  · exact hsorted _ _ hstart hstop hlt

private theorem charsBetween_eq {text : List Char} {range : Nat × Nat} (h : Within text range) :
    charsBetween (charsBefore text) range = some (Rule.charsBetween (charsBefore text) range) := by
  obtain ⟨before, after, hbefore, hafter, hle⟩ := exists_charsBefore h
  rw [charsBetween, Rule.charsBetween, hbefore, hafter, some_bind, some_bind, minus_of_le hle]
  rfl

private theorem inListLength_eq {s : Subject} (h : Aligned s) {range : Nat × Nat}
    (hrange : range ∈ inListRanges s) :
    inListLength s (charsBefore s.normalized) range =
      some ((slice? s.blanked range.1 range.2).bind fun contents =>
        if isSubquery contents then none
        else some (Rule.charsBetween (charsBefore s.normalized) range)) := by
  obtain ⟨hblanked, hnormalized⟩ := h.inListRanges hrange
  obtain ⟨contents, hcontents⟩ := Option.isSome_iff_exists.mp hblanked.cut_isSome
  have hslice : slice? s.blanked range.1 range.2 = some contents := hcontents
  rw [inListLength, hcontents, hslice, some_bind, charsBetween_eq hnormalized, some_bind,
    Option.bind_some]
  split
  · rfl
  · rfl

private theorem inListLengths_eq {s : Subject} (h : Aligned s) :
    inListLengths s = some (Rule.inListLengths s.blanked s.normalized) := by
  rw [inListLengths, mapM_eq fun range hrange => inListLength_eq h hrange, some_bind,
    List.filterMap_map]
  rfl

private theorem largeInList_eq {s : Subject} (h : Aligned s) :
    largeInList s = some (Rule.largeInList.check s) := by
  rw [largeInList, inListLengths_eq h]
  split
  · rfl
  · next hnone =>
    -- without an occurrence there is no length either
    have hnil : occurrences inList s.blanked = [] := by
      simpa [holds, find?] using hnone
    simp [Rule.largeInList, Rule.inListLengths, hnil]

/-! ### The catalogue -/

private theorem functionOnColumn_eq (s : Subject) :
    functionOnColumn s = some (Rule.functionOnColumn.check s) := by
  rw [functionOnColumn, clauseBody_eq]
  rfl

private theorem groupByExpression_eq (s : Subject) :
    groupByExpression s = some (Rule.groupByExpression.check s) := by
  rw [groupByExpression, clauseBody_eq]
  rfl

private theorem correlatedSubquery_eq (s : Subject) :
    correlatedSubquery s = some (Rule.correlatedSubquery.check s) := by
  rw [correlatedSubquery, mainQuery_eq, some_bind, selectList_eq]
  rfl

private theorem map_rule_catalogue : catalogue.map (·.rule) = Rule.catalogue := rfl

/-- A rule that uses no offset is checked as it is. -/
@[simp] theorem CheckedRule.check_plain (r : Rule) (s : Subject) :
    (CheckedRule.plain r).check s = some (r.check s) := rfl

/-- A rule that uses no offset is itself. -/
@[simp] theorem CheckedRule.rule_plain (r : Rule) : (CheckedRule.plain r).rule = r := rfl

/-- Every check finds what the check of the rule finds. -/
theorem check_eq {s : Subject} (h : Aligned s) :
    ∀ r ∈ catalogue, r.check s = some (r.rule.check s) := by
  simp only [catalogue, List.forall_mem_cons, CheckedRule.check_plain, CheckedRule.rule_plain,
    leadingWildcard_eq h, functionOnColumn_eq, correlatedSubquery_eq, largeInList_eq h,
    groupByExpression_eq, true_and, List.not_mem_nil, false_implies, implies_true]

private theorem map_rule_enabled (settings : Settings) :
    (enabled settings).map (·.rule) = Rule.enabled settings := by
  rw [enabled, Rule.enabled, ← map_rule_catalogue, List.filter_map, List.map_map, List.map_map]
  rfl

/-- The enabled rules recommend what they recommend with their offsets unchecked. -/
theorem evaluate_eq (settings : Settings) {s : Subject} (h : Aligned s) :
    evaluate (enabled settings) s = some (Rule.evaluate (Rule.enabled settings) s) := by
  have hfired : ((enabled settings).mapM fun r => do
      let finding ← r.check s
      some (finding.map r.rule.entry.recommend)) =
      some ((enabled settings).map fun r => r.rule.apply s) := by
    refine mapM_eq fun r hr => ?_
    obtain ⟨q, hq, rfl⟩ := List.mem_map.mp hr
    have hcheck := check_eq h q (List.mem_filter.mp hq).1
    simp only [hcheck]
    rfl
  rw [evaluate, hfired, some_bind, Rule.evaluate, fired, ← map_rule_enabled, List.filterMap_map,
    List.filterMap_map]
  rfl

end SqlReview.Checked

import SqlReview.Proofs.Query.Folded
import SqlReview.Proofs.Query.Span
import SqlReview.Proofs.Rule.Tidy
import SqlReview.Proofs.Search.Offset

/-!
# Subqueries in the select list

The rule on subqueries cuts the main query out of the text in upper case whose literals are blanked
already. The metrics cut it out of the text as it stands and blank its literals then. Both come to
the same select list, up to the case of its letters, so the rule is about the columns that are
counted.
-/

namespace SqlReview.Rule

open SqlReview.Text SqlReview.Lexical SqlReview.Search SqlReview.Query

/-! ### What opens a subquery -/

/-- Whether a text begins with a parenthesis and the word `SELECT` in any case, with nothing but
blanks between them. -/
def OpensSubquery (s : List Char) : Prop :=
  ∃ v w z, s = '(' :: (v ++ (w ++ z)) ∧ isBlankText v = true ∧
    sameText w "SELECT".toList = true ∧ z.head?.any isWordChar = false

/-- Whether a text holds such a parenthesis anywhere. -/
def HoldsSubquery (s : List Char) : Prop :=
  ∃ u t, s = u ++ t ∧ OpensSubquery t

/-- A word in upper case is read to its end if no other word character follows. -/
theorem read_select_boundary_iff {p q : Place} :
    ((Phrase.exactly "SELECT").read p).bind Phrase.boundary.read = some q ↔
      p.Before "SELECT".toList q ∧ q.rest.head?.any isWordChar = false := by
  have hboundary : p.Before "SELECT".toList q → q.atBoundary = !q.rest.head?.any isWordChar := by
    intro h
    rw [Place.atBoundary, h.before]
    exact Bool.true_bne _
  rw [Option.bind_eq_some_iff]
  constructor
  · rintro ⟨r, hr, hq⟩
    have hbefore := Phrase.read_exactly_iff.mp hr
    rw [Phrase.read_boundary] at hq
    split at hq
    · next hat =>
      obtain rfl := Option.some.inj hq
      rw [hboundary hbefore] at hat
      exact ⟨hbefore, by simpa using hat⟩
    · exact absurd hq (by simp)
  · rintro ⟨hbefore, hrest⟩
    refine ⟨q, Phrase.read_exactly_iff.mpr hbefore, ?_⟩
    rw [Phrase.read_boundary, hboundary hbefore, hrest]
    rfl

/-- The search for a subquery takes blanks as they come and the word in upper case only. -/
theorem isSome_read_scalarSubquery_iff (before : Option Char) (s : List Char) :
    (scalarSubquery.read ⟨before, s⟩).isSome = true ↔
      ∃ v z, s = '(' :: (v ++ ("SELECT".toList ++ z)) ∧ isBlankText v = true ∧
        z.head?.any isWordChar = false := by
  have hread : ∀ r, scalarSubquery.read ⟨before, '(' :: r⟩ =
      ((Phrase.exactly "SELECT").read (Place.skipWhile isBlank ⟨some '(', r⟩)).bind
        Phrase.boundary.read := fun _ => rfl
  constructor
  · intro h
    obtain ⟨q, hq⟩ := Option.isSome_iff_exists.mp h
    obtain ⟨p, hp, -⟩ := Option.bind_eq_some_iff.mp hq
    obtain ⟨c, hc, hopen, -⟩ := Phrase.read_one_iff.mp hp
    obtain rfl : c = '(' := beq_iff_eq.mp hc
    obtain rfl : s = '(' :: p.rest := hopen
    rw [hread, read_select_boundary_iff] at hq
    obtain ⟨⟨hrest, -⟩, hend⟩ := hq
    refine ⟨p.rest.takeWhile isBlank, q.rest, ?_, List.all_takeWhile, hend⟩
    rw [← hrest]
    exact congrArg ('(' :: ·) List.takeWhile_append_dropWhile.symm
  · rintro ⟨v, z, rfl, hv, hz⟩
    have hrest : trimStart (v ++ ("SELECT".toList ++ z)) = "SELECT".toList ++ z := by
      rw [trimStart_append hv]
      rfl
    rw [hread, Option.isSome_iff_exists]
    exact ⟨⟨some 'T', z⟩, read_select_boundary_iff.mpr ⟨⟨hrest, rfl⟩, hz⟩⟩

/-- In a text in upper case a subquery is read where the text opens one. -/
theorem isSome_read_upperAscii_iff (before : Option Char) (s : List Char) :
    (scalarSubquery.read ⟨before, upperAscii s⟩).isSome = true ↔ OpensSubquery s := by
  have hword : ∀ z : List Char, (upperAscii z).head?.any isWordChar = z.head?.any isWordChar := by
    intro z
    cases z with
    | nil => rfl
    | cons c z => exact (solid_isWordChar .upper).fold c
  have hblank : ∀ v : List Char, isBlankText (upperAscii v) = isBlankText v := fun v =>
    (isBlankText_eq_of_sameText (sameText_upperAscii v)).symm
  rw [isSome_read_scalarSubquery_iff]
  constructor
  · rintro ⟨v', z', hs, hv, hz⟩
    obtain ⟨c, t, rfl, hc, ht⟩ := List.map_eq_cons_iff.mp hs
    obtain ⟨v, r, rfl, rfl, hr⟩ := List.map_eq_append_iff.mp ht
    obtain ⟨w, z, rfl, hw, rfl⟩ := List.map_eq_append_iff.mp hr
    obtain rfl : c = '(' := (Folding.upper.of_eq_iff (by decide) c).mp hc
    refine ⟨v, w, z, rfl, (hblank v).symm.trans hv, ?_, (hword z).symm.trans hz⟩
    rw [← hw]
    exact sameText_upperAscii w
  · rintro ⟨v, w, z, rfl, hv, hw, hz⟩
    refine ⟨upperAscii v, upperAscii z, ?_, (hblank v).trans hv, (hword z).trans hz⟩
    have hselect : upperAscii w = "SELECT".toList := upperAscii_eq_of_sameText hw
    simp [upperAscii, ← hselect]

/-- A subquery is found in a text in upper case if and only if the text holds one. -/
theorem holds_scalarSubquery_upperAscii_iff (s : List Char) :
    holds scalarSubquery (upperAscii s) = true ↔ HoldsSubquery s := by
  have hplace : ∀ n, (scalarSubquery.read (placeAt none (upperAscii s) n)).isSome = true ↔
      OpensSubquery (s.drop n) := by
    intro n
    have hdrop : (upperAscii s).drop n = upperAscii (s.drop n) := List.map_drop.symm
    rw [placeAt, hdrop, isSome_read_upperAscii_iff]
  rw [holds_iff_exists_read sought_scalarSubquery.moves]
  simp only [hplace]
  constructor
  · rintro ⟨n, -, hopens⟩
    exact ⟨s.take n, s.drop n, (List.take_append_drop n s).symm, hopens⟩
  · rintro ⟨u, t, rfl, hopens⟩
    refine ⟨u.length, ?_, by rwa [List.drop_left]⟩
    obtain ⟨v, w, z, rfl, -⟩ := hopens
    simp [upperAscii]

/-! ### The rule -/

/-- The select list whose columns are counted: that of the main query with its literals blanked. -/
def countedList? (s : List Char) : Option (List Char) :=
  selectList? (blankLiterals (mainQuery (removeComments s)))

/-- The select list in which the rule looks is the one whose columns are counted, in upper case. -/
theorem selectList?_mainQuery_of (s : List Char) (m : Metrics) :
    selectList? (mainQuery (Subject.of s m).blanked) = (countedList? s).map upperAscii := by
  have hblanked : mainQuery (blankLiterals (removeComments s)) =
      blankLiterals (mainQuery (removeComments s)) := mainQuery_blankFrom _ _
  have hmain : mainQuery (Subject.of s m).blanked =
      upperAscii (mainQuery (blankLiterals (removeComments s))) := mainQuery_map .upper _
  rw [hmain, hblanked]
  exact selectList?_map .upper _

/-- The rule on subqueries looks in the select list whose columns are counted, whichever of cutting,
blanking and putting in upper case comes first. So it has a finding exactly if there is this list
and a subquery opens in it, in whichever case it is written. -/
theorem correlatedSubquery_iff (s : List Char) (m : Metrics) :
    selectList? (mainQuery (Subject.of s m).blanked) = (countedList? s).map upperAscii ∧
      ((correlatedSubquery.check (Subject.of s m)).isSome = true ↔
        ∃ list, countedList? s = some list ∧ HoldsSubquery list) := by
  have hlist := selectList?_mainQuery_of s m
  refine ⟨hlist, ?_⟩
  simp only [correlatedSubquery, hlist]
  cases countedList? s with
  | none => simp
  | some list =>
    have hfinding : ∀ (b : Bool) (d t : String), (findWhen b d t).isSome = b := by
      intro b d t
      cases b <;> rfl
    simp only [Option.map_some, Option.bind_eq_bind, Option.bind_some, hfinding,
      holds_scalarSubquery_upperAscii_iff, Option.some_inj, exists_eq_left']

example : (correlatedSubquery.check
    (Subject.of "with p as (select ')') select a, ( Select b from u) from t".toList {})).isSome =
      true := by
  decide +kernel

end SqlReview.Rule

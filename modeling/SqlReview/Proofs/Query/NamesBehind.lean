import SqlReview.Proofs.Query.SpacedParenthesis
import SqlReview.Proofs.Search.Mark

/-!
# Names behind an equals sign

The names of tables in a text that goes on with an equals sign and a space. No name and no gap goes
on over the equals sign, so the text behind it adds the names that follow a keyword in it. A list of
tables does go on: its commas may stand behind the equals sign.
-/

namespace SqlReview.Query

open SqlReview.Text SqlReview.Lexical SqlReview.Search

variable {keyword : String}

/-! ### Names after a keyword -/

private theorem avoids_introducedName (hk : keyword ∈ introducers) :
    (introducedName keyword).avoids '=' = true ∧ (introduction keyword).avoids '=' = true := by
  rcases List.mem_cons.mp hk with rfl | hk
  · decide
  · rcases List.mem_singleton.mp hk with rfl
    decide

/-- A name ends before the equals sign. -/
theorem tableCandidate?_append_equals (hk : keyword ∈ introducers) (u : List Char)
    (o : Occurrence) :
    tableCandidate? keyword (o.append ('=' :: u)) = tableCandidate? keyword o := by
  have hmark : isWordChar '=' = false := by decide
  have hread := Phrase.settled_of_avoids hmark (avoids_introducedName hk).2 u o.start
  have hstart : (o.append ('=' :: u)).start = o.start.append ('=' :: u) := rfl
  rw [tableCandidate?, tableCandidate?, hstart, hread]
  cases (introduction keyword).read o.start with
  | none => rfl
  | some p =>
    have hskip : (p.append ('=' :: u)).skipWhile isTableChar =
        (p.skipWhile isTableChar).append ('=' :: u) := by
      have hrun := Phrase.settled_of_avoids (a := .run isTableChar) hmark (by decide) u p
      exact Option.some.inj hrun
    have hcall := Phrase.settled_of_avoids (a := callMark) hmark (by decide) u
      (p.skipWhile isTableChar)
    have htake : (p.append ('=' :: u)).rest.takeWhile isTableChar =
        p.rest.takeWhile isTableChar := by
      have hne : ¬ isTableChar '=' = true := by decide
      rw [Place.append, List.takeWhile_append, List.takeWhile_cons_of_neg hne, List.append_nil]
      split
      · next hall => exact ((List.takeWhile_sublist _).eq_of_length hall).symm
      · rfl
    simp only [Option.map_some, hskip, hcall, Option.isSome_map, htake]

private theorem namesAfter_equals (hk : keyword ∈ introducers) (s u : List Char) :
    namesAfter keyword (s ++ '=' :: u) = namesAfter keyword s ++ namesAfter keyword u := by
  have hbefore : (some '=').any isWordChar = false := by decide
  have hcandidates : (tableCandidate? keyword ∘ Occurrence.append ('=' :: u)) =
      tableCandidate? keyword := funext (tableCandidate?_append_equals hk u)
  rw [namesAfter, occurrences, occurrencesFrom_mark (by decide) (avoids_introducedName hk).1
    (moves_introducedName hk), List.filterMap_append, List.filterMap_map, hcandidates,
    namesAfter_of_before keyword hbefore]
  rfl

/-- Where the keyword is no word of the text, no name follows it. -/
theorem namesAfter_eq_nil (hk : keyword ∈ introducers) {s : List Char}
    (h : holds (.words [keyword]) s = false) : namesAfter keyword s = [] := by
  have hkeyword : Phrase.AreKeywords [keyword] := by
    rcases List.mem_cons.mp hk with rfl | hk
    · decide
    · rcases List.mem_singleton.mp hk with rfl
      decide
  have hread : ∀ p, (Phrase.words [keyword]).read p = none →
      (introducedName keyword).read p = none := by
    intro p hnone
    rw [Option.eq_none_iff_forall_ne_some]
    intro q hq
    obtain ⟨hat, w, t, hrest, hw, ht⟩ := beginsWord_introducedName keyword p q hq
    obtain ⟨c, u, rfl, -⟩ := exists_cons_of_spells hk hw
    have hletters : (Phrase.letters keyword).read p = some ⟨(c :: u).getLast?.or p.before, t⟩ :=
      Phrase.read_letters_iff.mpr ⟨c :: u, hw, hrest, rfl⟩
    have hend : Place.atBoundary ⟨(c :: u).getLast?.or p.before, t⟩ = true := by
      have hlast := isWordChar_of_spells (isWordChar_of_foldsTo hk) hw _
        (List.getLast_mem (List.cons_ne_nil c u))
      rw [Place.atBoundary, List.getLast?_eq_some_getLast (List.cons_ne_nil c u), Option.some_or,
        Option.any_some, hlast, ht]
      rfl
    have hword : (Phrase.words [keyword]).read p = ((Phrase.boundary.read p).bind
        fun r => ((Phrase.letters keyword).read r).bind Phrase.boundary.read) := rfl
    rw [hword, Phrase.read_boundary, if_pos hat, Option.bind_some, hletters, Option.bind_some,
      Phrase.read_boundary, if_pos hend] at hnone
    exact absurd hnone (by simp)
  have hnil : occurrencesFrom (.words [keyword]) none s = [] := by
    have hheld : ¬ holds (.words [keyword]) s = true := by simp [h]
    rw [holds_iff_count_pos, count, occurrences] at hheld
    exact List.eq_nil_of_length_eq_zero (by omega)
  rw [namesAfter, occurrences,
    occurrencesFrom_eq_nil (Phrase.sought_words (f := .none) hkeyword).moves hread hnil]
  rfl

/-! ### Lists -/

private theorem startsInName_equals (u : List Char) : startsInName ('=' :: u) = false :=
  (by decide : isNameChar '=' = false)

/-- The lists of the text go on behind the equals sign, and others begin there. -/
theorem mem_listTexts_equals (s r x : List Char) : x ∈ listTexts false (s ++ '=' :: ' ' :: r) ↔
    (∃ y ∈ listTexts false s, y ++ '=' :: ' ' :: r = x) ∨ x ∈ listTexts false r := by
  have hblank : startsBlank ('=' :: ' ' :: r) = false := (by decide : isBlank '=' = false)
  have htrim : ∀ y ∈ listTexts false s,
      trimStart (y ++ '=' :: ' ' :: r) = y ++ '=' :: ' ' :: r := by
    intro y hy
    have hstart := startsBlank_of_mem_listTexts hy
    apply trimStart_of_startsBlank
    cases y with
    | nil => exact hblank
    | cons c y => exact hstart
  rw [mem_listTexts_append (startsInName_equals _), hblank, listTexts_mark (by decide),
    listTexts_mark (by decide)]
  simp only [Bool.false_eq_true, false_and, false_or]
  apply or_congr_left
  apply exists_congr
  intro y
  apply and_congr_right
  intro hy
  rw [htrim y hy]

/-! ### Items of lists -/

private theorem partName?_equals (x r : List Char) :
    partName? (x ++ '=' :: ' ' :: r) = partName? (x ++ ['=']) := by
  have hsplit : x ++ '=' :: ' ' :: r = (x ++ ['=']) ++ ' ' :: r := by simp
  have hx : trimStart (x ++ ['=']) ≠ [] := by
    rw [Ne, trimStart_eq_nil_iff, isBlankText, List.all_append]
    simp only [List.all_cons, (by decide : isBlank '=' = false)]
    simp
  rw [hsplit, partName?, firstWord?_append_blank (by decide) hx, partName?]

/-- A text without a comma has one part. -/
theorem exists_listParts_of_notMem {r : List Char} (h : ',' ∉ r) (depth : Nat) (inName : Bool) :
    ∃ part, listParts depth inName r = [part] := by
  induction r generalizing depth inName with
  | nil => exact ⟨[], rfl⟩
  | cons c r ih =>
    rw [List.mem_cons, not_or] at h
    by_cases hends : endsBefore listStops depth inName c r = true
    · exact ⟨[], listParts_of_ends hends⟩
    · obtain ⟨part, hpart⟩ := ih h.2 (depthAfter depth c) (isNameChar c)
      refine ⟨c :: part, ?_⟩
      rw [listParts_cons (by simpa using hends) fun hcomma => h.1 hcomma.1.symm, hpart]
      rfl

/-- The parts of a list that goes on behind the equals sign. What follows adds parts only behind a
comma. -/
theorem exists_listParts_equals {y : List Char} (h : isOpenList y = true) :
    ∃ before x, ∀ r, ∃ part after, (',' ∉ r → after = []) ∧
      listItems (y ++ '=' :: ' ' :: r) =
        severalParts (before ++ (x ++ '=' :: ' ' :: part) :: after) := by
  obtain ⟨before, x, d, -, happend⟩ := exists_listParts_append (List.isEmpty_iff.mp h)
  refine ⟨before, x, fun r => ?_⟩
  obtain ⟨part, after, hparts⟩ := List.exists_cons_of_ne_nil (listParts_ne_nil d false r)
  refine ⟨part, after, fun hr => ?_, ?_⟩
  · obtain ⟨only, honly⟩ := exists_listParts_of_notMem hr d false
    rw [hparts] at honly
    exact (List.cons.inj honly).2
  · rw [listItems_eq, happend _ (startsInName_equals _), listParts_idle (by decide) (by decide),
      listParts_idle (by decide) (by decide), hparts]
    rfl

/-- The names of a list in front of a text without a comma are names of the list in front of any
text. -/
theorem mem_names_of_notMem {y r r' : List Char} (hr' : ',' ∉ r') {name : List Char}
    (h : name ∈ (listItems (y ++ '=' :: ' ' :: r')).filterMap partName?) :
    name ∈ (listItems (y ++ '=' :: ' ' :: r)).filterMap partName? := by
  cases hopen : isOpenList y with
  | false =>
    rw [listItems_append_of_ended (startsInName_equals _) hopen] at h ⊢
    exact h
  | true =>
    obtain ⟨before, x, hitems⟩ := exists_listParts_equals hopen
    obtain ⟨part, after, -, hlist⟩ := hitems r
    obtain ⟨part', after', hafter, hlist'⟩ := hitems r'
    rw [hafter hr'] at hlist'
    rw [hlist', severalParts] at h
    split at h
    · next hlength =>
      have hlength' : 2 ≤ (before ++ (x ++ '=' :: ' ' :: part) :: after).length := by
        simp only [List.length_append, List.length_cons, List.length_nil] at hlength ⊢
        omega
      obtain ⟨item, hitem, hname⟩ := List.mem_filterMap.mp h
      rw [hlist, severalParts, if_pos hlength', List.mem_filterMap]
      rcases List.mem_append.mp hitem with hitem | hitem
      · exact ⟨item, List.mem_append_left _ hitem, hname⟩
      · obtain rfl := List.mem_singleton.mp hitem
        refine ⟨_, List.mem_append_right _ (List.mem_cons_self ..), ?_⟩
        rw [partName?_equals] at hname ⊢
        exact hname
    · exact absurd h List.not_mem_nil

private theorem subset_of_mem_listTexts {inName : Bool} {s x : List Char}
    (h : x ∈ listTexts inName s) : x ⊆ s := by
  induction s generalizing inName with
  | nil => exact absurd h List.not_mem_nil
  | cons c s ih =>
    rw [listTexts] at h
    rcases List.mem_append.mp h with h | h
    · split at h
      · exact absurd h List.not_mem_nil
      · obtain ⟨y, hy, rfl⟩ := Option.map_eq_some_iff.mp (Option.mem_toList.mp h)
        have hdrop := (Option.filter_eq_some_iff.mp (Option.filter_eq_some_iff.mp hy).1).1
        obtain ⟨w, hw, -⟩ := Checked.exists_letters hdrop
        intro d hd
        rw [hw]
        exact List.mem_append_right w ((List.dropWhile_sublist isBlank).subset hd)
    · exact List.subset_cons_of_subset c (ih h)

/-- The names of items of lists that go on behind the equals sign, or that begin there. -/
def carriedNames (s r : List Char) : List (List Char) :=
  ((listTexts false s).filter isOpenList).flatMap
      (fun y => (listItems (y ++ '=' :: ' ' :: r)).filterMap partName?) ++
    (itemsByList r).filterMap partName?

/-- Without a comma behind the equals sign no further name is carried. -/
theorem mem_itemsByList_of_mem_carriedNames {s r name : List Char} (hr : ',' ∉ r)
    (h : name ∈ carriedNames s r) (r' : List Char) :
    name ∈ (itemsByList (s ++ '=' :: ' ' :: r')).filterMap partName? := by
  rcases List.mem_append.mp h with h | h
  · obtain ⟨y, hy, hname⟩ := List.mem_flatMap.mp h
    rw [mem_itemsByList]
    exact ⟨_, (mem_listTexts_equals s r' _).mpr (.inl ⟨y, (List.mem_filter.mp hy).1, rfl⟩),
      mem_names_of_notMem hr hname⟩
  · obtain ⟨x, hx, hname⟩ := mem_itemsByList.mp h
    obtain ⟨part, hpart⟩ :=
      exists_listParts_of_notMem (fun hc => hr (subset_of_mem_listTexts hx hc)) 0 false
    rw [listItems_eq, hpart] at hname
    exact absurd hname List.not_mem_nil

/-- The names of items behind a text that adds none, and those that are carried. -/
theorem mem_itemsByList_equals {r' : List Char} (hcomma : ',' ∉ r')
    (hlists : listTexts false r' = []) (s r name : List Char) :
    name ∈ (itemsByList (s ++ '=' :: ' ' :: r)).filterMap partName? ↔
      name ∈ (itemsByList (s ++ '=' :: ' ' :: r')).filterMap partName? ∨
        name ∈ carriedNames s r := by
  rw [mem_itemsByList, mem_itemsByList, carriedNames, List.mem_append, mem_itemsByList,
    List.mem_flatMap]
  simp only [mem_listTexts_equals, hlists, List.not_mem_nil, or_false, List.mem_filter]
  constructor
  · rintro ⟨x, ⟨y, hy, rfl⟩ | hx, hname⟩
    · cases hopen : isOpenList y with
      | false =>
        refine .inl ⟨_, ⟨y, hy, rfl⟩, ?_⟩
        rw [listItems_append_of_ended (startsInName_equals _) hopen] at hname ⊢
        exact hname
      | true => exact .inr (.inl ⟨y, ⟨hy, hopen⟩, hname⟩)
    · exact .inr (.inr ⟨x, hx, hname⟩)
  · rintro (⟨x, ⟨y, hy, rfl⟩, hname⟩ | ⟨y, ⟨hy, -⟩, hname⟩ | ⟨x, hx, hname⟩)
    · exact ⟨_, .inl ⟨y, hy, rfl⟩, mem_names_of_notMem hcomma hname⟩
    · exact ⟨_, .inl ⟨y, hy, rfl⟩, hname⟩
    · exact ⟨x, .inr hx, hname⟩

/-! ### All names -/

/-- The names after a `FROM` or a `JOIN`. -/
def introducedNames (s : List Char) : List (List Char) :=
  (namesAfter "FROM" s ++ namesAfter "JOIN" s).filterMap tableName?

/-- The names behind a text that adds none, and those that another text adds: those after a keyword
in it and those of the items of lists. -/
theorem mem_foundNames_equals {r' : List Char} (hcomma : ',' ∉ r')
    (hlists : listTexts false r' = [])
    (hnames : ∀ keyword ∈ introducers, namesAfter keyword r' = []) (s r name : List Char) :
    name ∈ foundNames (s ++ '=' :: ' ' :: r) ↔
      name ∈ foundNames (s ++ '=' :: ' ' :: r') ∨
        name ∈ introducedNames r ∨ name ∈ carriedNames s r := by
  have hafter : ∀ keyword ∈ introducers, ∀ r, namesAfter keyword (s ++ '=' :: ' ' :: r) =
      namesAfter keyword s ++ namesAfter keyword r := by
    intro keyword hk r
    rw [namesAfter_equals hk, namesAfter_mark hk (by decide)]
  have hfrom : "FROM" ∈ introducers := by decide
  have hjoin : "JOIN" ∈ introducers := by decide
  rw [foundNames, foundNames, List.mem_append, List.mem_append,
    mem_itemsByList_equals hcomma hlists, hafter _ hfrom, hafter _ hjoin, hafter _ hfrom,
    hafter _ hjoin, hnames _ hfrom, hnames _ hjoin, introducedNames]
  simp only [List.filterMap_append, List.mem_append, List.append_nil]
  grind

end SqlReview.Query

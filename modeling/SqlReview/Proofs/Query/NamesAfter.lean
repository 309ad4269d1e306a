import SqlReview.Proofs.Query.Table
import SqlReview.Proofs.Search.Word

/-!
# Names after a keyword

The search for the names after a `FROM` or a `JOIN` on a text that is read word by word: it passes
over words that are not the keyword and over what is no word, and it finds the name that stands
after the keyword and a gap, unless a parenthesis makes the name a function.
-/

namespace SqlReview.Query

open SqlReview.Text SqlReview.Lexical SqlReview.Search

/-- The names after each occurrence of a keyword, those of functions left out. -/
def namesAfter (keyword : String) (s : List Char) : List (List Char) :=
  (occurrences (introducedName keyword) s).filterMap (tableCandidate? keyword)

/-- The keywords that introduce the name of a table. -/
def introducers : List String := ["FROM", "JOIN"]

variable {keyword : String} {w v s t : List Char}

/-! ### The phrase -/

private theorem plain_introducers : ∀ keyword ∈ introducers, IsKeyword keyword ∧
    ∀ k ∈ keyword.toList, isWordChar k = true ∧ k.toLower ≠ 's' ∧ k.toLower ≠ 'k' := by
  decide +kernel

private theorem spells_introducer (hk : keyword ∈ introducers) (w : List Char) :
    spells keyword.toList w = sameText w keyword.toList :=
  spells_eq_sameText (fun k h => ((plain_introducers keyword hk).2 k h).2) w

/-- What is read as a letter of a keyword is a word character. -/
theorem isWordChar_of_foldsTo (hk : keyword ∈ introducers) :
    ∀ k ∈ keyword.toList, ∀ c, foldsTo k c = true → isWordChar c = true := by
  intro k h c hc
  rw [← isWordChar_eq_of_foldsTo hc]
  exact ((plain_introducers keyword hk).2 k h).1

/-- A name after a keyword takes something. -/
theorem moves_introducedName (hk : keyword ∈ introducers) : (introducedName keyword).Moves :=
  (sought_introducedName .none (plain_introducers keyword hk).1).moves

/-- The keyword and the gap are read one after the other, where a word begins. -/
theorem read_introduction_eq (p : Place) : (introduction keyword).read p =
    if p.atBoundary then ((Phrase.letters keyword).read p).bind Phrase.gap.read else none := by
  change (Phrase.boundary.read p).bind _ = _
  rw [Phrase.read_boundary]
  split <;> rfl

/-- A keyword with a name is the keyword, its gap and then the name. -/
theorem read_introducedName (p : Place) : (introducedName keyword).read p =
    ((introduction keyword).read p).bind
      (Phrase.seq (.atLeastOne isTableChar) (.opt callMark)).read := rfl

/-- A keyword with a name begins with the whole keyword. -/
theorem beginsWord_introducedName (keyword : String) :
    (introducedName keyword).BeginsWord keyword := by
  intro p q hq
  rw [read_introducedName] at hq
  obtain ⟨r, hr, -⟩ := Option.bind_eq_some_iff.mp hq
  rw [read_introduction_eq] at hr
  split at hr
  · next hat =>
    obtain ⟨m, hm, hgap⟩ := Option.bind_eq_some_iff.mp hr
    obtain ⟨w, hw, hrest, -⟩ := Phrase.read_letters_iff.mp hm
    refine ⟨hat, w, m.rest, hrest, hw, ?_⟩
    rw [Phrase.read_gap] at hgap
    split at hgap
    · next hblank =>
      obtain ⟨c, s, hm, hc⟩ := exists_of_startsBlank hblank
      rw [hm, List.head?_cons, Option.any_some]
      exact (solid_isWordChar .none).blank c hc
    · exact absurd hgap (by simp)
  · exact absurd hr (by simp)

/-- What spells the keyword begins with a word character. -/
theorem exists_cons_of_spells (hk : keyword ∈ introducers)
    (hw : spells keyword.toList w = true) : ∃ c u, w = c :: u ∧ isWordChar c = true := by
  obtain ⟨c, u, rfl⟩ :=
    List.exists_cons_of_ne_nil (ne_nil_of_spells (plain_introducers keyword hk).1.1 hw)
  exact ⟨c, u, rfl,
    isWordChar_of_spells (isWordChar_of_foldsTo hk) hw c (List.mem_cons_self ..)⟩

/-- The phrase is read only where a word character stands. -/
theorem opensWord_introducedName (hk : keyword ∈ introducers) :
    (introducedName keyword).Opens isWordChar := by
  intro p q hq
  obtain ⟨-, w, s, hrest, hw, -⟩ := beginsWord_introducedName keyword p q hq
  obtain ⟨c, u, rfl, hc⟩ := exists_cons_of_spells hk hw
  exact ⟨c, u ++ s, hrest, hc⟩

/-- The keyword and a gap are read as far as the name. -/
theorem read_introduction_gap (hk : keyword ∈ introducers) (hw : sameText w keyword.toList = true)
    (hv : isBlankText v = true) (hne : v ≠ []) (ht : startsBlank t = false) :
    ∃ last, (introduction keyword).read ⟨none, w ++ (v ++ t)⟩ = some ⟨last, t⟩ := by
  rw [← spells_introducer hk] at hw
  have hat : Place.atBoundary ⟨none, w ++ (v ++ t)⟩ = true := by
    obtain ⟨c, u, rfl, hc⟩ := exists_cons_of_spells hk hw
    simp [Place.atBoundary, hc]
  have hletters : (Phrase.letters keyword).read ⟨none, w ++ (v ++ t)⟩ =
      some ⟨w.getLast?.or none, v ++ t⟩ := Phrase.read_letters_iff.mpr ⟨w, hw, rfl, rfl⟩
  have hblank : startsBlank (v ++ t) = true := by
    obtain ⟨c, v, rfl⟩ := List.exists_cons_of_ne_nil hne
    exact List.all_eq_true.mp hv c (List.mem_cons_self ..)
  obtain ⟨htake, hdrop⟩ := span_of_head? (List.all_eq_true.mp hv) ht
  rw [read_introduction_eq, if_pos hat, hletters, Option.bind_some, Phrase.read_gap, if_pos hblank,
    Place.skipWhile, htake, hdrop]
  exact ⟨_, rfl⟩

/-- A parenthesis makes a name a function when blanks at most stand before it. -/
theorem isSome_read_callMark (p : Place) :
    (callMark.read p).isSome = ((trimStart p.rest).head? == some '(') := by
  change ((Phrase.one (· == '(')).read (p.skipWhile isBlank)).isSome = _
  have hrest : (p.skipWhile isBlank).rest = trimStart p.rest := rfl
  rw [← hrest]
  obtain ⟨before, rest⟩ := p.skipWhile isBlank
  cases rest with
  | nil => rfl
  | cons c s =>
    rw [Phrase.read_one_cons]
    split
    · next hc => simpa using hc
    · next hc => simpa using hc

/-! ### The search -/

/-- Of the character before a text it matters only whether it belongs to a word. -/
theorem tableCandidate?_alike {o o' : Occurrence} (h : o.start.Alike o'.start) :
    tableCandidate? keyword o = tableCandidate? keyword o' := by
  have hread := (introduction keyword).rel_read h
  rw [tableCandidate?, tableCandidate?]
  generalize (introduction keyword).read o.start = x at hread ⊢
  generalize (introduction keyword).read o'.start = y at hread ⊢
  cases hread with
  | none => rfl
  | @some p q hp =>
    have hcall := callMark.rel_read (hp.skipWhile isTableChar)
    have hsome : (callMark.read (p.skipWhile isTableChar)).isSome =
        (callMark.read (q.skipWhile isTableChar)).isSome := by
      generalize callMark.read (p.skipWhile isTableChar) = x at hcall ⊢
      generalize callMark.read (q.skipWhile isTableChar) = y at hcall ⊢
      cases hcall <;> rfl
    simp only [hsome, hp.rest]

/-- The names that are found behind a character that belongs to no word. -/
theorem namesAfter_of_before (keyword : String) {before : Option Char}
    (h : before.any isWordChar = false) (s : List Char) :
    (occurrencesFrom (introducedName keyword) before s).filterMap (tableCandidate? keyword) =
      namesAfter keyword s := by
  have hnone : before.any isWordChar = (none : Option Char).any isWordChar := h
  have hmap := map_occurrencesFrom (g := tableCandidate? keyword)
    (fun _ _ hstart _ => tableCandidate?_alike hstart) (introducedName keyword) s hnone
  have hjoined := congrArg (List.filterMap id) hmap
  rwa [List.filterMap_map, List.filterMap_map] at hjoined

/-- A character that belongs to no word stands before no keyword of its own. -/
theorem namesAfter_mark (hk : keyword ∈ introducers) {c : Char} (hc : isWordChar c = false)
    (s : List Char) : namesAfter keyword (c :: s) = namesAfter keyword s := by
  have hread : (introducedName keyword).read ⟨none, c :: s⟩ = none :=
    (opensWord_introducedName hk).read_eq_none rfl hc
  have hbefore : (some c).any isWordChar = false := hc
  rw [namesAfter, occurrences, occurrencesFrom, hread]
  exact namesAfter_of_before keyword hbefore s

private theorem namesAfter_blanks (hk : keyword ∈ introducers) (hv : isBlankText v = true)
    (s : List Char) : namesAfter keyword (v ++ s) = namesAfter keyword s := by
  induction v with
  | nil => rfl
  | cons c v ih =>
    obtain ⟨hc, hv⟩ : isBlank c = true ∧ isBlankText v = true := by simpa [isBlankText] using hv
    rw [List.cons_append, namesAfter_mark hk ((solid_isWordChar .none).blank c hc), ih hv]

/-- Where no word begins, it does not matter what stands before. -/
theorem namesAfter_of_head? (hk : keyword ∈ introducers) (hs : s.head?.any isWordChar = false)
    (before : Option Char) :
    (occurrencesFrom (introducedName keyword) before s).filterMap (tableCandidate? keyword) =
      namesAfter keyword s := by
  cases s with
  | nil => simp [namesAfter, occurrences]
  | cons c s =>
    have hc : isWordChar c = false := hs
    have hread : (introducedName keyword).read ⟨before, c :: s⟩ = none :=
      (opensWord_introducedName hk).read_eq_none rfl hc
    have hbefore : (some c).any isWordChar = false := hc
    rw [namesAfter_mark hk hc, occurrencesFrom, hread]
    exact namesAfter_of_before keyword hbefore s

/-- Other words are passed over. -/
theorem namesAfter_word (hk : keyword ∈ introducers) (hw : ∀ c ∈ w, isWordChar c = true)
    (hkeyword : sameText w keyword.toList = false) (hs : s.head?.any isWordChar = false) :
    namesAfter keyword (w ++ s) = namesAfter keyword s := by
  rw [← spells_introducer hk] at hkeyword
  rw [namesAfter, occurrences, (beginsWord_introducedName keyword).occurrencesFrom_word
    (isWordChar_of_foldsTo hk) hw hkeyword hs, namesAfter_of_head? hk hs]

/-- A name after the keyword is found. -/
theorem namesAfter_name (hk : keyword ∈ introducers) (hw : sameText w keyword.toList = true)
    (hv : isBlankText v = true) (hne : v ≠ []) {n : List Char} (hn : ∀ c ∈ n, isTableChar c = true)
    (hnil : n ≠ []) (hs : s.head?.any isTableChar = false)
    (hcall : (trimStart s).head? ≠ some '(') :
    namesAfter keyword (w ++ (v ++ (n ++ s))) = n :: namesAfter keyword s := by
  obtain ⟨c, u, rfl⟩ := List.exists_cons_of_ne_nil hnil
  have hc := hn c (List.mem_cons_self ..)
  have hblank : startsBlank (c :: u ++ s) = false := by
    rw [Bool.eq_false_iff]
    intro h
    rw [(solid_isTableChar .none).blank c h] at hc
    exact Bool.false_ne_true hc
  obtain ⟨htake, hdrop⟩ := span_of_head? hn hs
  obtain ⟨last, hread⟩ := read_introduction_gap hk hw hv hne hblank
  have hplain : ∀ p : Place, p.rest = s → (callMark.read p).isSome = false := by
    intro p hp
    rw [isSome_read_callMark, hp, beq_eq_false_iff_ne]
    exact hcall
  have hskip : Place.skipWhile isTableChar ⟨last, c :: u ++ s⟩ =
      ⟨(c :: u).getLast?.or last, s⟩ := by
    rw [Place.skipWhile, htake, hdrop]
  have hname : (introducedName keyword).read ⟨none, w ++ (v ++ (c :: u ++ s))⟩ =
      some ⟨(c :: u).getLast?.or last, s⟩ := by
    have hhead : (c :: u ++ s).head?.any isTableChar = true := hc
    have hnone : callMark.read ⟨(c :: u).getLast?.or last, s⟩ = none := by
      simpa using hplain ⟨(c :: u).getLast?.or last, s⟩ rfl
    rw [read_introducedName, hread, Option.bind_some, Phrase.read_seq, Phrase.read_atLeastOne,
      if_pos hhead, hskip, Option.bind_some, Phrase.read_opt, hnone]
    rfl
  have hcandidate : ∀ stop, tableCandidate? keyword ⟨⟨none, w ++ (v ++ (c :: u ++ s))⟩, stop⟩ =
      some (c :: u) := by
    intro stop
    rw [tableCandidate?, hread]
    simp only [hskip, hplain, htake, Bool.false_eq_true, if_false]
  have hword : s.head?.any isWordChar = false := by
    cases s with
    | nil => rfl
    | cons d s =>
      have hd : isTableChar d = false := hs
      simp only [isTableChar, Bool.or_eq_false_iff] at hd
      exact hd.1.1.1.1
  obtain ⟨d, y, htext⟩ : ∃ d y, w ++ (v ++ (c :: u ++ s)) = d :: y :=
    List.exists_cons_of_ne_nil (by simp)
  rw [namesAfter, occurrences, htext]
  rw [htext] at hname hcandidate
  rw [occurrencesFrom_of_read (moves_introducedName hk) hname, List.filterMap_cons,
    hcandidate, namesAfter_of_head? hk hword]

/-- No name is found where a parenthesis stands in its place. -/
theorem namesAfter_opening (hk : keyword ∈ introducers) (hw : sameText w keyword.toList = true)
    (hv : isBlankText v = true) (hne : v ≠ []) (s : List Char) :
    namesAfter keyword (w ++ (v ++ '(' :: s)) = namesAfter keyword s := by
  have hblank : startsBlank ('(' :: s) = false := (by decide : isBlank '(' = false)
  obtain ⟨last, hread⟩ := read_introduction_gap hk hw hv hne hblank
  have hnone : (introducedName keyword).read ⟨none, w ++ (v ++ '(' :: s)⟩ = none := by
    rw [read_introducedName, hread, Option.bind_some, Phrase.read_seq, Phrase.read_atLeastOne]
    rfl
  rw [← spells_introducer hk] at hw
  have hword := isWordChar_of_spells (isWordChar_of_foldsTo hk) hw
  have hhead : (v ++ '(' :: s).head?.any isWordChar = false := by
    obtain ⟨d, v, rfl⟩ := List.exists_cons_of_ne_nil hne
    exact (solid_isWordChar .none).blank d (List.all_eq_true.mp hv d (List.mem_cons_self ..))
  obtain ⟨c, u, rfl, hc⟩ := exists_cons_of_spells hk hw
  rw [namesAfter, occurrences, List.cons_append, occurrencesFrom, ← List.cons_append, hnone,
    (beginsWord_introducedName keyword).onBoundary.occurrencesFrom_inside
      (fun d hd => hword d (List.mem_cons_of_mem c hd)) hc]
  rw [namesAfter_of_head? hk hhead, namesAfter_blanks hk hv, namesAfter_mark hk (by decide)]

end SqlReview.Query

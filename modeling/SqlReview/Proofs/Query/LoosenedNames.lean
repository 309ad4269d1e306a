import SqlReview.Proofs.Query.Loosened
import SqlReview.Proofs.Query.NamesAfter

/-!
# Names in a loosened text

The names after a keyword are those of the loosened text: a parenthesis makes a name a function
whether there is a space before it or not. The names that a prologue binds are the same as well,
apart from names that hold a parenthesis, which can stand in quotation marks only and name no table.
-/

namespace SqlReview.Query

open SqlReview.Text SqlReview.Lexical SqlReview.Search Phrase

variable {s t : List Char} {keyword : String}

/-! ### Names after a keyword -/

private theorem unopened_of_introducer : ∀ keyword ∈ introducers, IsUnopened keyword := by
  decide +kernel

/-- A keyword and the gap after it are read in the loosened text, except before a parenthesis. -/
theorem rel_read_introduction (hk : IsUnopened keyword) {p q : Place} (h : p.Loosened q) :
    Option.Rel Place.Loosened ((introduction keyword).read p) ((introduction keyword).read q) ∨
      StopsAtOpening ((introduction keyword).read p) ∧
        StopsAtOpening ((introduction keyword).read q) := by
  have hassoc : ∀ p : Place, (introduction keyword).read p =
      ((Phrase.seq .boundary (.letters keyword)).read p).bind Phrase.gap.read := by
    intro p
    rw [read_seq, Option.bind_assoc]
    rfl
  have hword := loose_boundary.seq (loose_letters hk) p q h
  rw [hassoc, hassoc]
  generalize (Phrase.seq .boundary (.letters keyword)).read p = x at hword ⊢
  generalize (Phrase.seq .boundary (.letters keyword)).read q = y at hword ⊢
  cases hword with
  | none => exact .inl .none
  | some hr => exact rel_read_gap hr

/-- No name is read where a parenthesis stands. -/
theorem bind_name_eq_none {read : Option Place} (h : StopsAtOpening read) :
    read.bind (Phrase.seq (.atLeastOne isTableChar) (.opt callMark)).read = none := by
  have hshuns : Shuns (.seq (.atLeastOne isTableChar) (.opt callMark)) :=
    (shuns_one (solid_isTableChar .none).blank (by decide)).seq.seq
  cases read with
  | none => rfl
  | some p => exact hshuns.opening p (h p rfl)

/-- Names after a keyword are found in the loosened text. -/
theorem found_introducedName (hk : keyword ∈ introducers) : (introducedName keyword).Found where
  loose := by
    intro p q h
    have hname : Loose (.seq (.atLeastOne isTableChar) (.opt callMark)) :=
      ((loose_one (by decide) (by decide)).seq (loose_run (by decide) (by decide))).seq
        loose_blanks_opening.opt
    rw [read_introducedName, read_introducedName]
    rcases rel_read_introduction (unopened_of_introducer keyword hk) h with hread | ⟨hp, hq⟩
    · generalize (introduction keyword).read p = x at hread ⊢
      generalize (introduction keyword).read q = y at hread ⊢
      cases hread with
      | none => exact .none
      | some hr => exact hname _ _ hr
    · rw [bind_name_eq_none hp, bind_name_eq_none hq]
      exact .none
  shuns := (shuns_letters (unopened_of_introducer keyword hk)).seq.boundary.seq
  moves := moves_introducedName hk

private theorem tableCandidate?_loosened (hk : keyword ∈ introducers) {o o' : Occurrence}
    (h : o.Loosened (introducedName keyword) o') :
    tableCandidate? keyword o = tableCandidate? keyword o' := by
  have hname := h.read
  rw [read_introducedName] at hname
  rw [tableCandidate?, tableCandidate?]
  rcases rel_read_introduction (unopened_of_introducer keyword hk) h.start with hread | ⟨hp, -⟩
  · generalize (introduction keyword).read o.start = x at hread ⊢
    generalize (introduction keyword).read o'.start = y at hread ⊢
    cases hread with
    | none => rfl
    | @some p q hr =>
      have hafter : (p.skipWhile isTableChar).Loosened (q.skipWhile isTableChar) :=
        hr.skipWhile (by decide) (by decide)
      have hcall : (callMark.read (p.skipWhile isTableChar)).isSome =
          (callMark.read (q.skipWhile isTableChar)).isSome :=
        isSome_eq_of_rel (loose_blanks_opening _ _ hafter)
      have htake : p.rest.takeWhile isTableChar = q.rest.takeWhile isTableChar :=
        hr.rest.takeWhile_eq (by decide) (by decide)
      simp only [hcall, htake]
  · rw [bind_name_eq_none hp] at hname
    exact absurd hname (by simp)

/-- The names after a keyword are the names after it in the loosened text. -/
theorem namesAfter_loosened (hk : keyword ∈ introducers) (h : Loosened s t) :
    namesAfter keyword s = namesAfter keyword t := by
  have hall := (found_introducedName hk).occurrencesFrom h none
  rw [namesAfter, namesAfter, occurrences, occurrences]
  generalize occurrencesFrom (introducedName keyword) none s = os at hall ⊢
  generalize occurrencesFrom (introducedName keyword) none t = os' at hall ⊢
  induction hall with
  | nil => rfl
  | cons ho _ ih =>
    rw [List.filterMap_cons, List.filterMap_cons, tableCandidate?_loosened hk ho, ih]

/-! ### Bound names -/

/-- Whether a name holds no opening parenthesis. -/
def isUncalled (name : List Char) : Bool :=
  !name.contains '('

private theorem isUncalled_iff {name : List Char} : isUncalled name = true ↔ '(' ∉ name := by
  simp [isUncalled]

private theorem isUncalled_lower (w : List Char) : isUncalled (lower w) = isUncalled w := by
  rw [Bool.eq_iff_iff, isUncalled_iff, isUncalled_iff,
    mem_lower (by decide) (by decide) (by decide)]

/-- A word that a space is put into is no keyword, and its name holds a parenthesis. -/
theorem sameWord_loosened {w w' : List Char} (h : Loosened w w') : SameWord isUncalled w w' := by
  by_cases hopen : '(' ∉ w ∨ '(' ∉ w'
  · obtain rfl := h.eq_of_not_mem hopen
    exact ⟨fun _ _ => rfl, rfl, fun _ => rfl⟩
  · obtain ⟨hw, hw'⟩ : '(' ∈ w ∧ '(' ∈ w' := by simpa using hopen
    have hkeyword : ∀ u : List Char, '(' ∈ u →
        ∀ k ∈ ["SELECT", "AS", "WITH", "RECURSIVE"], sameText u k.toList = false := by
      intro u hu k hk
      rw [Bool.eq_false_iff]
      intro hsame
      have hmem : '(' ∈ lowerAscii u := List.mem_map.mpr ⟨'(', hu, rfl⟩
      rw [sameText_iff.mp hsame] at hmem
      exact (by decide : ∀ k ∈ ["SELECT", "AS", "WITH", "RECURSIVE"],
        '(' ∉ lowerAscii k.toList) k hk hmem
    have hfalse : ∀ u : List Char, '(' ∈ u → isUncalled (lower u) = false := by
      intro u hu
      rw [isUncalled_lower, Bool.eq_false_iff]
      exact fun h => isUncalled_iff.mp h hu
    refine ⟨?_, ?_, ?_⟩
    · intro k hk
      rw [hkeyword w hw k hk, hkeyword w' hw' k hk]
    · rw [hfalse w hw, hfalse w' hw']
    · intro h
      rw [hfalse w hw] at h
      exact absurd h (by decide)

/-- What stands before the mark that ends a quoted name, and what follows the mark. -/
theorem loosened_span_mark (h : Loosened s t) {m : Char}
    (hm : (m == backtick || m == doubleQuote) = true) :
    Loosened (s.takeWhile (· != m)) (t.takeWhile (· != m)) ∧
      Loosened ((s.dropWhile (· != m)).drop 1) ((t.dropWhile (· != m)).drop 1) := by
  have hcls : ('(' != m) = (' ' != m) := by
    rw [Bool.or_eq_true, beq_iff_eq, beq_iff_eq] at hm
    rcases hm with rfl | rfl
    · rfl
    · rfl
  have hspan : Loosened (s.takeWhile (· != m)) (t.takeWhile (· != m)) ∧
      Loosened (s.dropWhile (· != m)) (t.dropWhile (· != m)) := h.span hcls
  refine ⟨hspan.1, ?_⟩
  have hdrop := hspan.2
  have hhead := List.head?_dropWhile_not (· != m) s
  generalize s.dropWhile (· != m) = x at hdrop hhead ⊢
  generalize t.dropWhile (· != m) = y at hdrop ⊢
  cases hdrop with
  | nil => exact .nil
  | cons c hxy => exact hxy
  | space hxy =>
    obtain rfl : '(' = m := by simpa using hhead
    exact absurd hm (by decide)

/-- The symbols of a loosened text are read as the symbols of the text. -/
theorem tokens_loosened (h : Loosened s t) :
    List.Forall₂ (Token.Same isUncalled) (tokens s) (tokens t) := by
  induction hn : s.length using Nat.strongRecOn generalizing s t with
  | ind n ih =>
    cases h with
    | nil => simp [tokens]
    | @cons c s t h =>
      have hs : s.length < n := by
        rw [← hn]
        exact Nat.lt_succ_self _
      rw [tokens, tokens]
      split
      · exact .cons .opening (ih _ hs h rfl)
      · split
        · exact .cons .closing (ih _ hs h rfl)
        · split
          · exact .cons .comma (ih _ hs h rfl)
          · split
            · next hq =>
              obtain ⟨htake, hdrop⟩ := loosened_span_mark h hq
              have hlt : ((s.dropWhile (· != c)).drop 1).length < n := by
                have := (s.dropWhile_sublist (· != c)).length_le
                rw [List.length_drop]
                omega
              exact .cons (.quoted (sameWord_loosened htake)) (ih _ hlt hdrop rfl)
            · split
              · have hlt : (s.dropWhile isNameChar).length < n := by
                  have := (s.dropWhile_sublist isNameChar).length_le
                  omega
                have hdrop : Loosened (s.dropWhile isNameChar) (t.dropWhile isNameChar) :=
                  (h.span (by decide)).2
                rw [h.takeWhile_eq (by decide) (by decide)]
                exact .cons (.word (sameWord_loosened (.refl _))) (ih _ hlt hdrop rfl)
              · exact ih _ hs h rfl
    | @space s t h =>
      have hs : s.length < n := by
        rw [← hn]
        exact Nat.lt_succ_self _
      have hopening : ∀ u : List Char, tokens ('(' :: u) = .opening :: tokens u := by
        intro u
        rw [tokens]
        rfl
      have hblank := tokens_blank (c := ' ') rfl ('(' :: t)
      rw [hblank, hopening, hopening]
      exact .cons .opening (ih _ hs h rfl)

/-- The names without parentheses that a prologue binds are those that the loosened prologue
binds. -/
theorem mem_boundNames_loosened (h : Loosened s t) {name : List Char} (hname : '(' ∉ name) :
    name ∈ boundNames s ↔ name ∈ boundNames t := by
  have hfilter := congrArg (name ∈ ·)
    (filter_boundNames (hasPrologue_loosened h) (tokens_loosened h))
  simpa [List.mem_filter, isUncalled_iff.mpr hname] using hfilter

end SqlReview.Query

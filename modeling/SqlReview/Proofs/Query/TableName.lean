import SqlReview.Proofs.Query.ListParts

/-!
# The names of tables

What every name of a table is like. After a keyword a search reads characters of names only, but an
item of a list is any text. Its first word names a table when it holds no opening parenthesis, and
then it holds no closing one, no comma and no semicolon either: a part of a list begins outside of
parentheses, and there these marks end it.
-/

namespace SqlReview.Query

open SqlReview.Text SqlReview.Lexical SqlReview.Search

/-! ### Items of lists -/

/-- Whether no closing parenthesis, comma or semicolon stands before the first opening parenthesis
of a text. -/
def OpensFirst (s : List Char) : Prop :=
  ∀ c ∈ s.takeWhile (· != '('), c ≠ ')' ∧ c ≠ ',' ∧ c ≠ ';'

private theorem opensFirst_nil : OpensFirst [] :=
  fun _ h => absurd h List.not_mem_nil

private theorem OpensFirst.cons {c : Char} {s : List Char} (hc : c ≠ ')' ∧ c ≠ ',' ∧ c ≠ ';')
    (hs : c = '(' ∨ OpensFirst s) : OpensFirst (c :: s) := by
  by_cases hopen : c = '('
  · subst hopen
    exact fun _ h => absurd h List.not_mem_nil
  · intro d hd
    rw [List.takeWhile_cons_of_pos (by simpa using hopen)] at hd
    rcases List.mem_cons.mp hd with rfl | hd
    · exact hc
    · exact hs.resolve_left hopen d hd

/-- A part of a list that begins outside of parentheses has an opening parenthesis before any mark
that would end it there. The first part may begin inside. -/
theorem opensFirst_parts (depth : Nat) (inName : Bool) (s : List Char) :
    ∃ first parts, listParts depth inName s = first :: parts ∧
      (depth = 0 → OpensFirst first) ∧ ∀ part ∈ parts, OpensFirst part := by
  induction s generalizing depth inName with
  | nil => exact ⟨[], [], rfl, fun _ => opensFirst_nil, fun _ h => absurd h List.not_mem_nil⟩
  | cons c s ih =>
    cases hends : endsBefore listStops depth inName c s with
    | true =>
      exact ⟨[], [], listParts_of_ends hends, fun _ => opensFirst_nil,
        fun _ h => absurd h List.not_mem_nil⟩
    | false =>
      by_cases hcomma : c = ',' ∧ depth = 0
      · obtain ⟨rfl, rfl⟩ := hcomma
        obtain ⟨first, parts, hparts, hfirst, hrest⟩ := ih 0 false
        refine ⟨[], first :: parts, ?_, fun _ => opensFirst_nil, ?_⟩
        · rw [listParts_comma, hparts]
        · intro part hpart
          rcases List.mem_cons.mp hpart with rfl | hpart
          · exact hfirst rfl
          · exact hrest part hpart
      · obtain ⟨first, parts, hparts, hfirst, hrest⟩ := ih (depthAfter depth c) (isNameChar c)
        refine ⟨c :: first, parts, ?_, ?_, hrest⟩
        · rw [listParts_cons hends hcomma, hparts]
          rfl
        · rintro rfl
          have hmarks : c ≠ ')' ∧ c ≠ ',' ∧ c ≠ ';' := by
            refine ⟨?_, fun h => hcomma ⟨h, rfl⟩, ?_⟩
            · rintro rfl
              exact absurd hends (by simp [endsBefore])
            · rintro rfl
              exact absurd hends (by simp [endsBefore])
          apply OpensFirst.cons hmarks
          by_cases hopen : c = '('
          · exact .inl hopen
          · right
            apply hfirst
            simp [depthAfter, hopen, hmarks.1]

/-- The items of a list have an opening parenthesis before any mark that would end them. -/
theorem opensFirst_of_mem_listItems {s item : List Char} (h : item ∈ listItems s) :
    OpensFirst item := by
  obtain ⟨first, parts, hparts, hfirst, hrest⟩ := opensFirst_parts 0 false s
  rw [listItems_eq, severalParts, hparts] at h
  split at h
  · rcases List.mem_cons.mp h with rfl | h
    · exact hfirst rfl
    · exact hrest item h
  · exact absurd h List.not_mem_nil

/-- The first word of an item that holds no opening parenthesis holds no mark that would end it. -/
theorem marks_of_firstWord? {item word : List Char} (h : OpensFirst item)
    (hword : firstWord? item = some word) (hopen : '(' ∉ word) :
    ∀ c ∈ word, c ≠ ')' ∧ c ≠ ',' ∧ c ≠ ';' := by
  have htake : word = (trimStart item).takeWhile (!isBlank ·) := by
    unfold firstWord? at hword
    split at hword
    · exact absurd hword (by simp)
    · exact (Option.some.inj hword).symm
  have hitem :
      item.takeWhile isBlank ++ word ++ (trimStart item).dropWhile (!isBlank ·) = item := by
    rw [htake, List.append_assoc, List.takeWhile_append_dropWhile, trimStart,
      List.takeWhile_append_dropWhile]
  have hbefore : ∀ c ∈ item.takeWhile isBlank ++ word, (c != '(') = true := by
    intro c hc
    rw [bne_iff_ne]
    rintro rfl
    rcases List.mem_append.mp hc with hc | hc
    · exact absurd (List.all_eq_true.mp List.all_takeWhile _ hc) (by decide)
    · exact hopen hc
  intro c hc
  apply h
  rw [← hitem, List.takeWhile_append_of_pos hbefore]
  exact List.mem_append_left _ (List.mem_append_right _ hc)

/-! ### Candidates -/

/-- A candidate that holds no opening parenthesis holds no other mark between names either. -/
theorem marks_of_mem_tableCandidates {s raw : List Char} (h : raw ∈ tableCandidates s)
    (hopen : '(' ∉ raw) : ∀ c ∈ raw, c ≠ ')' ∧ c ≠ ',' ∧ c ≠ ';' := by
  have hintroduced : ∀ keyword, raw ∈ namesAfter keyword s →
      ∀ c ∈ raw, c ≠ ')' ∧ c ≠ ',' ∧ c ≠ ';' := by
    intro keyword hraw c hc
    obtain ⟨found, -, hfound⟩ := List.mem_filterMap.mp hraw
    have hclass := isTableChar_of_tableCandidate? hfound c hc
    refine ⟨?_, ?_, ?_⟩
    all_goals
      rintro rfl
      exact absurd hclass (by decide)
  rcases List.mem_append.mp h with h | h
  · rcases List.mem_append.mp h with h | h
    · exact hintroduced "FROM" h
    · exact hintroduced "JOIN" h
  · obtain ⟨item, hitem, hraw⟩ := List.mem_filterMap.mp h
    have hbylist := (fromListItems_perm s).mem_iff.mp hitem
    obtain ⟨text, -, hlist⟩ := List.mem_flatMap.mp hbylist
    exact marks_of_firstWord? (opensFirst_of_mem_listItems hlist) hraw hopen

/-! ### Names -/

/-- What every name of a table is like. -/
structure IsTableName (name : List Char) : Prop where
  ne_nil : name ≠ []
  period : name.head? ≠ some '.'
  blanks : ∀ c ∈ name, isBlank c = false
  marks : ∀ c ∈ name, c ∉ [',', ';', '(', ')', backtick, doubleQuote]
  keywords : ∀ k ∈ tableKeywords, sameText name k.toList = false

private theorem tableKeywords_ascii : ∀ k ∈ tableKeywords, ∀ c ∈ k.toList,
    0 < c.toLower.toNat ∧ c.toLower.toNat < 128 ∧ c.toLower ≠ 'k' := by
  decide +kernel

private theorem isTableName_of_tableName? {s raw name : List Char} (h : raw ∈ tableCandidates s)
    (hname : tableName? raw = some name) : IsTableName name := by
  have hbare := isBare_of_tableName? (isBare_of_mem_tableCandidates h) hname
  unfold tableName? at hname
  split at hname
  · exact absurd hname (by simp)
  · next hopen =>
    simp only at hname
    split at hname
    · exact absurd hname (by simp)
    · next hword =>
      obtain rfl := Option.some.inj hname
      have hparen : '(' ∉ raw := by simpa using hopen
      have hmarks := marks_of_mem_tableCandidates h hparen
      simp only [Bool.or_eq_true, not_or, List.isEmpty_iff, beq_iff_eq, List.any_eq_true,
        not_exists, not_and] at hword
      obtain ⟨⟨hne, hperiod⟩, hkeyword⟩ := hword
      refine ⟨lower_ne_nil hne, ?_, ?_, ?_, ?_⟩
      · intro hhead
        exact hperiod (head?_of_head?_lower (by decide) (by decide) (by decide) hhead)
      · simpa [isBare] using hbare
      · intro c hc hmark
        have hlower : ∀ m ∈ [',', ';', '(', ')', backtick, doubleQuote],
            IsMark m ∧ 0 < m.toNat ∧ m.toNat < 'k'.toNat := by decide
        obtain ⟨hm, hpos, hlt⟩ := hlower c hmark
        rw [mem_lower hm hpos hlt, List.mem_filter] at hc
        obtain ⟨hraw, hquotes⟩ := hc
        obtain ⟨hclose, hcomma, hsemicolon⟩ := hmarks c hraw
        have hopen : c ≠ '(' := fun heq => hparen (heq ▸ hraw)
        simp only [Bool.and_eq_true, bne_iff_ne, ne_eq] at hquotes
        simp [hclose, hcomma, hsemicolon, hopen, hquotes] at hmark
      · intro k hk
        rw [Bool.eq_false_iff]
        intro hsame
        exact hkeyword k hk (sameText_of_sameText_lower (tableKeywords_ascii k hk) hsame)

private theorem nodup_insertName {names : List (List Char)} (h : names.Nodup) (name : List Char) :
    (insertName names name).Nodup := by
  unfold insertName
  split
  · exact h
  · next hname =>
    refine List.nodup_append.mpr ⟨h, by simp, ?_⟩
    intro a ha b hb hab
    rw [hab, List.mem_singleton.mp hb] at ha
    exact hname ha

/-- Every table is named once. -/
theorem nodup_tables (s : List Char) (bound : List (List Char)) : (tables s bound).Nodup := by
  have hfold : ∀ names found : List (List Char), found.Nodup →
      (names.foldl (fun found x => if bound.contains x then found else insertName found x)
        found).Nodup := by
    intro names
    induction names with
    | nil => exact fun _ h => h
    | cons x names ih =>
      intro found h
      rw [List.foldl_cons]
      apply ih
      split
      · exact h
      · exact nodup_insertName h x
  exact hfold _ [] List.nodup_nil

/-- Every table of a text is told by a name, and each by one: no bound name, no keyword, and none
that begins with a period or holds a blank, a mark between names or a quotation mark. -/
theorem isTableName_of_mem_tables (s : List Char) (bound : List (List Char)) :
    (tables s bound).Nodup ∧ ∀ name ∈ tables s bound, IsTableName name ∧ name ∉ bound := by
  refine ⟨nodup_tables s bound, fun name hname => ?_⟩
  obtain ⟨hnames, hbound⟩ := mem_tables.mp hname
  obtain ⟨raw, hraw, hname⟩ := List.mem_filterMap.mp hnames
  exact ⟨isTableName_of_tableName? hraw hname, hbound⟩

/-- An item in quotation marks, behind a bound name. -/
theorem isTableName_of_quoted_item :
    let s := "SELECT x FROM v, `Sch`.\"T\" u, (SELECT 1) w".toList
    "sch.t".toList ∈ tables s ["v".toList] ∧ IsTableName "sch.t".toList ∧
      "sch.t".toList ∉ ["v".toList] := by
  intro s
  have hmem : "sch.t".toList ∈ tables s ["v".toList] := by decide +kernel
  exact ⟨hmem, (isTableName_of_mem_tables s ["v".toList]).2 _ hmem⟩

end SqlReview.Query

import SqlReview.Proofs.Lexical.Normalized
import SqlReview.Proofs.Query.ListItems
import SqlReview.Proofs.Query.QuotedSpan
import SqlReview.Proofs.Search.Offset

/-!
# The items of a select list

A select list as one writes it: items with commas between them, each of which closes the
parentheses that it opens and has neither a comma nor a `FROM` outside of them. The search for the
end of the list passes over the items one by one, and the list is cut into these items again. So
columns are counted as they are written.
-/

namespace SqlReview.Query

open SqlReview.Text SqlReview.Lexical SqlReview.Search

/-! ### Items -/

/-- How many parentheses a text leaves open. -/
def openCount (s : List Char) : Nat :=
  s.count '(' - s.count ')'

/-- Whether a text is one item of a select list. What it holds in parentheses may be anything. -/
structure IsSelectItem (s : List Char) : Prop where
  /-- No parenthesis closes that was not opened. -/
  opened : ∀ n ≤ s.length, (s.take n).count ')' ≤ (s.take n).count '('
  closed : s.count '(' = s.count ')'
  /-- Outside of parentheses there is no comma, and no whole word `FROM`. -/
  outside : ∀ n < s.length, openCount (s.take n) = 0 →
    s[n]? ≠ some ',' ∧ wordAt isNameChar "FROM" s n = false

/-- Whether a text is an item of a select list is told from the text. -/
instance (s : List Char) : Decidable (IsSelectItem s) :=
  decidable_of_iff
    ((∀ n ≤ s.length, (s.take n).count ')' ≤ (s.take n).count '(') ∧
      s.count '(' = s.count ')' ∧
      ∀ n < s.length, openCount (s.take n) = 0 →
        s[n]? ≠ some ',' ∧ wordAt isNameChar "FROM" s n = false)
    ⟨fun ⟨h₁, h₂, h₃⟩ => ⟨h₁, h₂, h₃⟩, fun h => ⟨h.opened, h.closed, h.outside⟩⟩

variable {u x : List Char} {c : Char}

/-- A character opens or closes a parenthesis. -/
theorem openCount_concat (h : u.count ')' ≤ u.count '(') :
    openCount (u ++ [c]) = depthAfter (openCount u) c := by
  rw [openCount, openCount, List.count_append, List.count_append, List.count_singleton,
    List.count_singleton, depthAfter]
  by_cases hopen : c = '('
  · subst hopen
    simp only [beq_self_eq_true, if_true, show ('(' == ')') = false from rfl,
      Bool.false_eq_true, if_false]
    omega
  · by_cases hclose : c = ')'
    · subst hclose
      simp only [beq_self_eq_true, if_true, show (')' == '(') = false from rfl,
        Bool.false_eq_true, if_false]
      omega
    · simp [hopen, hclose]

/-- The first part of an item closes no parenthesis too many. -/
theorem IsSelectItem.count_le (h : IsSelectItem (u ++ x)) : u.count ')' ≤ u.count '(' := by
  have hle := h.opened u.length (by simp)
  rwa [List.take_left] at hle

/-- An item leaves no parenthesis open. -/
theorem IsSelectItem.openCount_eq_zero (h : IsSelectItem x) : openCount x = 0 := by
  rw [openCount, h.closed, Nat.sub_self]

private theorem IsSelectItem.openCount_ne_zero (h : IsSelectItem (u ++ ')' :: x)) :
    openCount u ≠ 0 := by
  rw [List.append_cons] at h
  have hle := h.count_le
  rw [List.count_append, List.count_append, List.count_singleton_self,
    show [')'].count '(' = 0 from rfl] at hle
  rw [openCount]
  omega

/-- What a character of an item outside of parentheses cannot be. -/
theorem IsSelectItem.not_comma_and_not_from (h : IsSelectItem (u ++ c :: x))
    (hopen : openCount u = 0) :
    c ≠ ',' ∧ wordAt isNameChar "FROM" (u ++ c :: x) u.length = false := by
  have hout := h.outside u.length (by simp) (by rw [List.take_left]; exact hopen)
  rw [List.getElem?_append_right (Nat.le_refl _), Nat.sub_self] at hout
  simpa using hout

/-! ### The end of the list -/

variable {t : List Char}

/-- A text that begins with a keyword where no name ends begins with it as a whole word. -/
theorem wordAt_of_startsWith {keyword : String} (hk : ∀ k ∈ keyword.toList, isNameChar k = true)
    (hu : u.getLast?.any isNameChar = false) (ht : startsInName t = false)
    (h : startsWith keyword (x ++ t) = true) :
    wordAt isNameChar keyword (u ++ x) u.length = true := by
  have hword : ∀ d ∈ x.takeWhile isNameChar, isNameChar d = true := fun d hd =>
    List.all_eq_true.mp List.all_takeWhile d hd
  have hend : startsInName (x.dropWhile isNameChar) = false := startsInName_dropWhile x
  have hrest : startsInName (x.dropWhile isNameChar ++ t) = false := by
    cases hx : x.dropWhile isNameChar with
    | nil => exact ht
    | cons d y =>
      rw [hx] at hend
      exact hend
  have hsplit : x.takeWhile isNameChar ++ x.dropWhile isNameChar = x :=
    List.takeWhile_append_dropWhile
  have hsame : sameText (x.takeWhile isNameChar) keyword.toList = true := by
    rwa [← hsplit, List.append_assoc, startsWith_word hk hword hrest] at h
  rw [← hsplit, wordAt_append hsame, hu]
  simpa [startsInName] using hend

private theorem startsInName_comma (s : List Char) : startsInName (',' :: s) = false :=
  (by decide : isNameChar ',' = false)

private theorem beforeFrom?_inName (h : startsInName t = false) (d : Nat) (b : Bool) :
    beforeFrom? d b t = beforeFrom? d false t := by
  cases t with
  | nil => rfl
  | cons c t =>
    have hfrom : startsWith "FROM" (c :: t) = false :=
      startsWith_word (w := []) (by decide) (by simp) h
    rw [beforeFrom?, beforeFrom?, hfrom, Bool.and_false, Bool.and_false]

/-- A character that neither closes too much nor begins a `FROM` is part of the list. -/
theorem beforeFrom?_cons {d : Nat} {b : Bool} (hclose : (c == ')' && d == 0) = false)
    (hstop : (d == 0 && !b && startsWith "FROM" (c :: t)) = false) :
    beforeFrom? d b (c :: t) = (beforeFrom? (depthAfter d c) (isNameChar c) t).map (c :: ·) := by
  rw [beforeFrom?, hclose, hstop]
  rfl

/-- The search for the end of the list passes over an item. `u` is what it has passed of it. -/
theorem IsSelectItem.beforeFrom?_part (h : IsSelectItem (u ++ x)) (ht : startsInName t = false) :
    Query.beforeFrom? (openCount u) (u.getLast?.any isNameChar) (x ++ t) =
      (Query.beforeFrom? 0 false t).map (x ++ ·) := by
  induction x generalizing u with
  | nil =>
    rw [List.append_nil] at h
    rw [h.openCount_eq_zero, List.nil_append, beforeFrom?_inName ht]
    simp
  | cons c x ih =>
    have hclose : (c == ')' && openCount u == 0) = false := by
      rw [Bool.eq_false_iff]
      intro hand
      obtain ⟨rfl, hopen⟩ : c = ')' ∧ openCount u = 0 := by simpa using hand
      exact h.openCount_ne_zero hopen
    have hstop : (openCount u == 0 && !u.getLast?.any isNameChar &&
        startsWith "FROM" (c :: (x ++ t))) = false := by
      rw [Bool.eq_false_iff]
      intro hand
      obtain ⟨⟨hopen, hlast⟩, hstarts⟩ : (openCount u = 0 ∧ u.getLast?.any isNameChar = false) ∧
          startsWith "FROM" (c :: x ++ t) = true := by simpa using hand
      have hword := wordAt_of_startsWith (by decide) hlast ht hstarts
      rw [(h.not_comma_and_not_from hopen).2] at hword
      exact Bool.noConfusion hword
    have hnext := ih (u := u ++ [c]) (by rwa [← List.append_cons])
    rw [openCount_concat h.count_le, List.getLast?_concat, Option.any_some] at hnext
    rw [List.cons_append, beforeFrom?_cons hclose hstop, hnext, Option.map_map]
    rfl

private theorem IsSelectItem.beforeFrom? (h : IsSelectItem x) (ht : startsInName t = false) :
    Query.beforeFrom? 0 false (x ++ t) = (Query.beforeFrom? 0 false t).map (x ++ ·) :=
  IsSelectItem.beforeFrom?_part (u := []) h ht

/-! ### The parts of the list -/

private theorem IsSelectItem.splitTopLevelFrom (h : IsSelectItem (u ++ x)) (t : List Char) :
    Query.splitTopLevelFrom ',' (openCount u) (x ++ t) =
      prepend x (Query.splitTopLevelFrom ',' 0 t) := by
  induction x generalizing u with
  | nil =>
    rw [List.append_nil] at h
    have hparts := Checked.splitTopLevelFrom_ne_nil ',' 0 t
    rw [h.openCount_eq_zero, List.nil_append, prepend_nil hparts]
  | cons c x ih =>
    have hcomma : ¬(c = ',' ∧ openCount u = 0) := fun ⟨hc, hopen⟩ =>
      (h.not_comma_and_not_from hopen).1 hc
    have hnext := ih (u := u ++ [c]) (by rwa [← List.append_cons])
    rw [openCount_concat h.count_le] at hnext
    rw [List.cons_append, Checked.splitTopLevelFrom_cons hcomma, hnext, prepend_prepend]
    rfl

variable {items : List (List Char)}

/-- The text of a list is cut into its items. -/
theorem splitTopLevel_intercalate (hne : items ≠ []) (hitems : ∀ c ∈ items, IsSelectItem c) :
    splitTopLevel ',' ([','].intercalate items) = items := by
  rw [splitTopLevel]
  induction items with
  | nil => exact absurd rfl hne
  | cons c items ih =>
    have hitem := IsSelectItem.splitTopLevelFrom (u := []) (hitems c (List.mem_cons_self ..))
    rw [show openCount [] = 0 from rfl] at hitem
    cases items with
    | nil =>
      have hlast := hitem []
      rw [List.append_nil] at hlast
      rw [List.intercalate_singleton, hlast, Query.splitTopLevelFrom, prepend, List.append_nil]
    | cons c' items =>
      rw [List.intercalate_cons_cons, List.append_assoc, hitem, List.singleton_append,
        splitTopLevelFrom_separator (by decide),
        ih (List.cons_ne_nil _ _) fun e he => hitems e (List.mem_cons_of_mem c he), prepend,
        List.append_nil]

private theorem length_splitTopLevel_trim (s : List Char) :
    (splitTopLevel ',' (trim s)).length = (splitTopLevel ',' s).length := by
  have hcomma : ',' ≠ '(' ∧ ',' ≠ ')' := by decide
  have hflat : ∀ {w : List Char}, isBlankText w = true →
      ∀ c ∈ w, c ≠ '(' ∧ c ≠ ')' ∧ c ≠ ',' := by
    intro w hw c hc
    have hblank : isBlank c = true := List.all_eq_true.mp hw c hc
    refine ⟨?_, ?_, ?_⟩ <;> rintro rfl <;> exact absurd hblank (by decide)
  obtain ⟨v, w, hv, hw, hs⟩ := exists_trim s
  have hend : (splitTopLevelFrom ',' 0 (trim s ++ w)).length =
      (splitTopLevelFrom ',' 0 (trim s ++ [])).length := by
    refine length_splitTopLevelFrom_append hcomma (fun e => ?_) 0 (trim s)
    have hblanks := length_splitTopLevelFrom_flat hcomma (hflat hw) e []
    rwa [List.append_nil] at hblanks
  rw [List.append_nil] at hend
  conv_rhs => rw [hs]
  rw [List.append_assoc, splitTopLevel, splitTopLevel,
    length_splitTopLevelFrom_flat hcomma (hflat hv), hend]

/-! ### Columns -/

private theorem beforeFrom?_comma (t : List Char) :
    beforeFrom? 0 false (',' :: t) = (beforeFrom? 0 false t).map (',' :: ·) := by
  have hfrom : startsWith "FROM" (',' :: t) = false :=
    startsWith_word (w := []) (by decide) (by simp) (startsInName_comma t)
  exact beforeFrom?_cons rfl (by rw [hfrom, Bool.and_false])

private theorem beforeFrom?_intercalate (hitems : ∀ c ∈ items, IsSelectItem c)
    (ht : startsInName t = false) :
    beforeFrom? 0 false ([','].intercalate items ++ t) =
      (beforeFrom? 0 false t).map ([','].intercalate items ++ ·) := by
  induction items with
  | nil => simp
  | cons c items ih =>
    have hitem := hitems c (List.mem_cons_self ..)
    cases items with
    | nil => rw [List.intercalate_singleton, hitem.beforeFrom? ht]
    | cons c' items =>
      have hrest := ih fun e he => hitems e (List.mem_cons_of_mem c he)
      rw [List.intercalate_cons_cons, List.append_assoc, List.append_assoc, List.singleton_append,
        hitem.beforeFrom? (startsInName_comma _), beforeFrom?_comma, hrest, Option.map_map,
        Option.map_map]
      simp [Function.comp_def]

/-- After a `SELECT` at the start of a text the list goes up to its `FROM`. -/
theorem selectList?_select (t : List Char) :
    selectList? ("SELECT".toList ++ ' ' :: t) = beforeFrom? 0 false (' ' :: t) := by
  have hmoves : (Phrase.words ["SELECT"]).Moves :=
    (Phrase.sought_words (f := .none) (by decide)).moves
  have hread : (Phrase.words ["SELECT"]).read ⟨none, "SELECT".toList ++ ' ' :: t⟩ =
      some ⟨some 'T', ' ' :: t⟩ :=
    Phrase.read_words_iff.mpr ⟨rfl, rfl, "SELECT".toList, by decide, rfl, rfl⟩
  rw [selectList?_eq_bind, remainders, occurrences]
  rw [show "SELECT".toList ++ ' ' :: t = 'S' :: ("ELECT".toList ++ ' ' :: t) from rfl] at hread ⊢
  rw [occurrencesFrom_of_read hmoves hread]
  rfl

private theorem beforeFrom?_from (rest : List Char) :
    beforeFrom? 0 false ("FROM".toList ++ ' ' :: rest) = some [] := by
  have hfrom : startsWith "FROM" ("FROM".toList ++ ' ' :: rest) = true := by
    rw [startsWith_word (by decide) (by decide) rfl]
    decide
  rw [show "FROM".toList ++ ' ' :: rest = 'F' :: ("ROM".toList ++ ' ' :: rest) from rfl] at hfrom ⊢
  rw [beforeFrom?, hfrom]
  rfl

/-- The select list of a text is what stands between its `SELECT` and its `FROM`. -/
theorem selectList?_items (hitems : ∀ c ∈ items, IsSelectItem c) (rest : List Char) :
    selectList? ("SELECT ".toList ++ ([','].intercalate items ++ (" FROM ".toList ++ rest))) =
      some (' ' :: ([','].intercalate items ++ [' '])) := by
  have hblank : isBlank ' ' = true := by decide
  have hend : startsInName (' ' :: ("FROM".toList ++ ' ' :: rest)) = false :=
    isNameChar_of_isBlank hblank
  have hselect := selectList?_select
    ([','].intercalate items ++ ' ' :: ("FROM".toList ++ ' ' :: rest))
  rw [beforeFrom?_blank hblank, beforeFrom?_intercalate hitems hend, beforeFrom?_blank hblank,
    beforeFrom?_from] at hselect
  exact hselect

/-- Whether a list is a single item for which no column is counted: a blank one, or an asterisk,
blanks around it apart. -/
def selectsNone : List (List Char) → Bool
  | [c] => isBlankText c || trim c == ['*']
  | _ => false

private theorem not_bare_of_comma_mem {s : List Char} (h : ',' ∈ s) :
    ¬(trim s = [] ∨ trim s = ['*']) := by
  obtain ⟨v, w, hv, hw, hs⟩ := exists_trim s
  have hblank : ∀ {w : List Char}, isBlankText w = true → ',' ∉ w := fun hw hmem =>
    absurd (List.all_eq_true.mp hw ',' hmem) (by decide)
  rw [hs] at h
  have hmem : ',' ∈ trim s := by simpa [hblank hv, hblank hw] using h
  rintro (hnil | hstar)
  · rw [hnil] at hmem
    exact absurd hmem (by decide)
  · rw [hstar] at hmem
    exact absurd hmem (by decide)

/-- The text of a list trims to nothing or to an asterisk only if the list is one such item. -/
theorem selectsNone_iff (hne : items ≠ []) :
    selectsNone items = true ↔
      trim ([','].intercalate items) = [] ∨ trim ([','].intercalate items) = ['*'] := by
  obtain ⟨c, items, rfl⟩ := List.exists_cons_of_ne_nil hne
  cases items with
  | nil => simp [selectsNone, trim_eq_nil_iff]
  | cons c' items =>
    have hcomma : ',' ∈ [','].intercalate (c :: c' :: items) := by
      simp [List.intercalate_cons_cons]
    exact iff_of_false Bool.false_ne_true (not_bare_of_comma_mem hcomma)

/-- The columns of a select list are its items: the search for the end of the list passes over all
of them, whatever they hold in parentheses, and the list is cut where one of them ends. Only an
asterisk by itself and a blank list count for nothing. -/
theorem columnCount_items (hne : items ≠ []) (hitems : ∀ c ∈ items, IsSelectItem c)
    (rest : List Char) :
    let list := [','].intercalate items
    let s := "SELECT ".toList ++ (list ++ (" FROM ".toList ++ rest))
    selectList? s = some (' ' :: (list ++ [' '])) ∧
      columnCount s = if selectsNone items then 0 else items.length := by
  intro list s
  have hlist : selectList? s = some (' ' :: (list ++ [' '])) := selectList?_items hitems rest
  have htrim : trim (' ' :: (list ++ [' '])) = trim list := trim_margins (v := [' ']) rfl rfl list
  have hparts : (splitTopLevel ',' (trim list)).length = items.length := by
    rw [length_splitTopLevel_trim, splitTopLevel_intercalate hne hitems]
  refine ⟨hlist, ?_⟩
  rw [columnCount, hlist, Option.map_some, htrim]
  simp only [hparts, ← selectsNone_iff hne, list]

/-- A subquery with a list of its own is one column, and a name that begins with `from` ends no
list. -/
theorem columnCount_of_nested_select :
    let items := ["a".toList, " (SELECT max(b), c FROM u) AS m".toList, " from_date".toList]
    items ≠ [] ∧ (∀ c ∈ items, IsSelectItem c) ∧
      columnCount "SELECT a, (SELECT max(b), c FROM u) AS m, from_date FROM t, v".toList = 3 := by
  intro items
  have hne : items ≠ [] := List.cons_ne_nil _ _
  have hitems : ∀ c ∈ items, IsSelectItem c := by decide +kernel
  exact ⟨hne, hitems, (columnCount_items hne hitems "t, v".toList).2⟩

example : selectsNone [" * ".toList] = true ∧ ¬IsSelectItem "a FROM b".toList := by
  decide +kernel

end SqlReview.Query

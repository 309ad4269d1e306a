import SqlReview.Proofs.Query.Margin
import SqlReview.Proofs.Query.Passage
import SqlReview.Proofs.Query.SpacedItems
import SqlReview.Proofs.Search.Mark

/-!
# A quoted span in a query

The scans of a text `x ++ m :: (w ++ m :: y)`, a span with the content `w` between two texts. A
keyword is told in front of a mark as where nothing follows, so the two sides of the span are read
on their own. They are read as around an empty span, which `hollow x y` has in this place. The
content is passed over by the scans that follow spans, and the others find in it what it holds.
-/

namespace SqlReview.Query

open SqlReview.Text SqlReview.Lexical SqlReview.Search Phrase

/-- Two texts around an empty span. -/
def hollow (x y : List Char) : List Char :=
  x ++ doubleQuote :: doubleQuote :: y

variable {m : Char} {w : List Char}

/-! ### In front of a mark -/

/-- The blanks that a text begins with end at a mark at the latest. -/
theorem trimStart_quote (hm : isQuote m = true) (s u : List Char) :
    trimStart (s ++ m :: u) = trimStart s ++ m :: u := by
  have hsolid : ¬ isBlank m = true := by simp [isBlank_of_isQuote hm]
  by_cases hs : trimStart s = []
  · rw [trimStart_append (trimStart_eq_nil_iff.mp hs), hs, List.nil_append]
    exact List.dropWhile_cons_of_neg hsolid
  · exact trimStart_append_of_ne_nil hs (m :: u)

private theorem trimEnd_quote (hm : isQuote m = true) (s u : List Char) :
    trimEnd (s ++ m :: u) = s ++ m :: trimEnd u := by
  have hreverse : (s ++ m :: u).reverse = u.reverse ++ m :: s.reverse := by simp
  have htrim := trimStart_quote hm u.reverse s.reverse
  rw [trimStart, trimStart] at htrim
  rw [trimEnd, trimEnd, hreverse, htrim]
  simp

/-- A keyword is followed in front of a mark by what follows it where the text ends there. -/
theorem afterKeyword?_quote (hm : isQuote m = true) {keyword : String}
    (hk : ∀ k ∈ keyword.toList, isNameChar k = true) (s u : List Char) :
    afterKeyword? keyword (s ++ m :: u) = (afterKeyword? keyword s).map (· ++ m :: u) := by
  have hmark : startsInName (m :: u) = false := isNameChar_of_isQuote hm
  exact afterKeyword?_append_of_startsInName hk hmark s

private theorem startsWith_quote (hm : isQuote m = true) {keyword : String}
    (hk : ∀ k ∈ keyword.toList, isNameChar k = true) (s u : List Char) :
    startsWith keyword (s ++ m :: u) = startsWith keyword s := by
  rw [startsWith, startsWith, afterKeyword?_quote hm hk, Option.isSome_map]

/-- Whether there is a prologue is told in front of a quotation mark. -/
theorem hasPrologue_quote (hm : isQuote m = true) (s u : List Char) :
    hasPrologue (s ++ m :: u) = hasPrologue s := by
  rw [hasPrologue, hasPrologue, trimStart_quote hm, startsWith_quote hm (by decide)]

/-! ### Scans that follow the span -/

/-- The main query begins behind a span, whatever its marks and its content are, or it begins before
the span, and then where it begins when nothing follows. -/
theorem mainQuery_span {p : List Char} (hp : Whole p) (y : List Char) :
    (∃ t, t.length ≤ y.length ∧ ∀ m w, isQuote m = true → SpanText m w →
      mainQuery (p ++ m :: (w ++ m :: y)) = t) ∨
    (Whole (mainQuery p) ∧ ∀ m w, isQuote m = true → SpanText m w →
      mainQuery (p ++ m :: (w ++ m :: y)) = mainQuery p ++ m :: (w ++ m :: y)) := by
  have hnone : hasPrologue p = false → mainQuery p = p := by
    intro hprologue
    rw [mainQuery, if_neg (by simp [hprologue])]
  cases hprologue : hasPrologue p with
  | false =>
    refine .inr ⟨by rwa [hnone hprologue], fun m w hm _ => ?_⟩
    rw [hnone hprologue, mainQuery, hasPrologue_quote hm, if_neg (by simp [hprologue])]
  | true =>
    rcases Whole.passage_or_select hp 0 with ⟨e, hpassage⟩ | ⟨a, x, rfl, ha, hlast, hx, hselect⟩
    · have hspan : ∀ m w, isQuote m = true → SpanText m w →
          selectFrom 0 none false (p ++ m :: (w ++ m :: y)) = selectFrom e none false y := by
        intro m w hm hw
        have hmark : startsInName (m :: (w ++ m :: y)) = false := isNameChar_of_isQuote hm
        rw [hpassage.selectFrom (.inl hmark), selectFrom_spanText hm hw]
      cases hy : selectFrom e none false y with
      | some t =>
        refine .inl ⟨t, length_selectFrom_le hy, fun m w hm hw => ?_⟩
        rw [mainQuery, hasPrologue_quote hm, if_pos hprologue, hspan m w hm hw, hy,
          Option.getD_some]
      | none =>
        have hend := hpassage.selectFrom (z := []) (.inl rfl)
        rw [List.append_nil] at hend
        have hmain : mainQuery p = p := by
          rw [mainQuery, if_pos hprologue, hend]
          rfl
        refine .inr ⟨by rwa [hmain], fun m w hm hw => ?_⟩
        rw [hmain, mainQuery, hasPrologue_quote hm, if_pos hprologue, hspan m w hm hw, hy,
          Option.getD_none]
    · have hmain : mainQuery (a ++ x) = x := by
        rw [mainQuery, if_pos hprologue, ha.selectFrom (.inr hlast), selectFrom_select hselect,
          Option.getD_some]
      refine .inr ⟨by rwa [hmain], fun m w hm _ => ?_⟩
      have hselect' : startsWith "SELECT" (x ++ m :: (w ++ m :: y)) = true := by
        rw [startsWith_quote hm (by decide), hselect]
      rw [hmain, mainQuery, hasPrologue_quote hm, if_pos hprologue, List.append_assoc,
        ha.selectFrom (.inr hlast), selectFrom_select hselect', Option.getD_some]

private theorem subqueryDepthFrom_spanText (hm : isQuote m = true) (h : SpanText m w) (d : Nat)
    (y : List Char) :
    subqueryDepthFrom d none (m :: (w ++ m :: y)) = subqueryDepthFrom d none y := by
  rw [subqueryDepthFrom, if_pos hm, subqueryDepthFrom_span, rest?_spanText hm h, Option.elim_some]

/-- Around a span subqueries are nested as deeply as around an empty one. -/
theorem subqueryDepthFrom_hollow {x : List Char} (hx : Whole x) (hm : isQuote m = true)
    (h : SpanText m w) (d : Nat) (y : List Char) :
    subqueryDepthFrom d none (x ++ m :: (w ++ m :: y)) =
      subqueryDepthFrom d none (hollow x y) := by
  have hempty : isQuote doubleQuote = true := by decide
  induction hx generalizing d with
  | nil =>
    rw [List.nil_append, subqueryDepthFrom_spanText hm h]
    exact (subqueryDepthFrom_spanText hempty .nil d y).symm
  | @char c x hc _ ih =>
    have hkey : startsWith "SELECT" (trimStart (x ++ m :: (w ++ m :: y))) =
        startsWith "SELECT" (trimStart (hollow x y)) := by
      rw [hollow, trimStart_quote hm, trimStart_quote hempty, startsWith_quote hm (by decide),
        startsWith_quote hempty (by decide)]
    rw [hollow, List.cons_append, List.cons_append, subqueryDepthFrom, subqueryDepthFrom]
    rw [hollow] at hkey ih
    simp only [hc, hkey, ih, Bool.false_eq_true, if_false]
  | @span k inside x hk hinside _ ih =>
    rw [hollow, List.cons_append, List.append_assoc, List.cons_append, List.cons_append,
      List.append_assoc, List.cons_append, subqueryDepthFrom_spanText hk hinside,
      subqueryDepthFrom_spanText hk hinside]
    exact ih d

/-! ### The select list -/

/-- A content that leaves the select list around it as it is: it has no parenthesis, and it holds
neither a `SELECT` nor a `FROM`. -/
structure IsQuiet (w : List Char) : Prop where
  opening : '(' ∉ w
  closing : ')' ∉ w
  select : holds (.words ["SELECT"]) w = false
  source : beforeFrom? 0 false w = none

/-- A mark is passed over. -/
theorem beforeFrom?_mark (hm : isQuote m = true) (d : Nat) (b : Bool) (u : List Char) :
    beforeFrom? d b (m :: u) = (beforeFrom? d false u).map (m :: ·) := by
  have hkey : startsWith "FROM" (m :: u) = false := startsWith_quote hm (by decide) [] u
  have hparen : ∀ {k}, isQuote k = false → (m == k) = false := by
    intro k hk
    rw [beq_eq_false_iff_ne]
    rintro rfl
    rw [hm] at hk
    exact Bool.noConfusion hk
  rw [beforeFrom?, hkey, hparen (by decide), hparen (by decide), isNameChar_of_isQuote hm]
  simp

/-- In front of a mark a `FROM` is found where it is found in the text that ends there, or the text
in front of the mark is passed over. -/
theorem beforeFrom?_quote (d : Nat) (b : Bool) (x : List Char) :
    (∀ m u, isQuote m = true → beforeFrom? d b (x ++ m :: u) = beforeFrom? d b x) ∨
    (beforeFrom? d b x = none ∧ ∃ e, ∀ m u, isQuote m = true →
      beforeFrom? d b (x ++ m :: u) = (beforeFrom? e false u).map (x ++ m :: ·)) := by
  induction x generalizing d b with
  | nil => exact .inr ⟨rfl, d, fun m u hm => beforeFrom?_mark hm d b u⟩
  | cons c x ih =>
    have hkey : ∀ m u, isQuote m = true →
        startsWith "FROM" (c :: (x ++ m :: u)) = startsWith "FROM" (c :: x) :=
      fun m u hm => startsWith_quote hm (by decide) (c :: x) u
    simp only [List.cons_append, beforeFrom?]
    by_cases hclose : (c == ')' && d == 0) = true
    · exact .inl fun m u _ => by rw [if_pos hclose, if_pos hclose]
    rw [if_neg hclose]
    by_cases hstop : (d == 0 && !b && startsWith "FROM" (c :: x)) = true
    · refine .inl fun m u hm => ?_
      rw [hkey m u hm, if_neg hclose, if_pos hstop, if_pos hstop]
    rw [if_neg hstop]
    rcases ih (if c == '(' then d + 1 else if c == ')' then d - 1 else d) (isNameChar c) with
      hsame | ⟨hnone, e, hpass⟩
    · refine .inl fun m u hm => ?_
      rw [hkey m u hm, if_neg hclose, if_neg hstop, hsame m u hm]
    · refine .inr ⟨by rw [hnone, Option.map_none], e, fun m u hm => ?_⟩
      rw [hkey m u hm, if_neg hclose, if_neg hstop, hpass m u hm, Option.map_map]
      rfl

private theorem beforeFrom?_content (hm : isQuote m = true) (hopen : '(' ∉ w) (hclose : ')' ∉ w)
    {b : Bool} (hw : beforeFrom? 0 b w = none) (e : Nat) (u : List Char) :
    beforeFrom? e b (w ++ m :: u) = (beforeFrom? e false u).map (w ++ m :: ·) := by
  induction w generalizing b with
  | nil => exact beforeFrom?_mark hm e b u
  | cons c w ih =>
    have hkey : startsWith "FROM" (c :: (w ++ m :: u)) = startsWith "FROM" (c :: w) :=
      startsWith_quote hm (by decide) (c :: w) u
    rw [List.mem_cons, not_or] at hopen hclose
    have hparen : (c == '(') = false ∧ (c == ')') = false :=
      ⟨beq_eq_false_iff_ne.mpr (Ne.symm hopen.1), beq_eq_false_iff_ne.mpr (Ne.symm hclose.1)⟩
    obtain ⟨hstop, hrest⟩ : (!b && startsWith "FROM" (c :: w)) = false ∧
        beforeFrom? 0 (isNameChar c) w = none := by
      rw [beforeFrom?, hparen.1, hparen.2] at hw
      cases hstop : !b && startsWith "FROM" (c :: w) <;> simp_all
    rw [List.cons_append, beforeFrom?, hparen.1, hparen.2, hkey, Bool.and_assoc, hstop]
    simp [ih hopen.2 hclose.2 hrest, Function.comp_def]

/-- The marks of a span. -/
theorem eq_of_isQuote (hm : isQuote m = true) :
    m = apostrophe ∨ m = doubleQuote ∨ m = backtick := by
  simpa [isQuote, or_assoc] using hm

/-- A mark belongs to no word. -/
theorem isWordChar_of_isQuote (hm : isQuote m = true) : isWordChar m = false :=
  inner_isWordChar.quote m hm

private theorem remainders_select (hm : isQuote m = true) (s u : List Char) :
    remainders (words ["SELECT"]) (s ++ m :: u) =
      (remainders (words ["SELECT"]) s).map (· ++ m :: u) ++ remainders (words ["SELECT"]) u := by
  refine remainders_mark (isWordChar_of_isQuote hm) ?_ (sought_words (f := .none) (by decide)).moves
    s u
  rcases eq_of_isQuote hm with rfl | rfl | rfl <;> decide

/-- Where the list ends before a mark it is the list of the text that ends there. -/
theorem selectList?_quote (hm : isQuote m = true) {s list : List Char}
    (h : selectList? s = some list) (u : List Char) : selectList? (s ++ m :: u) = some list := by
  rw [selectList?_eq_bind] at h ⊢
  obtain ⟨rest, hrest, hlist⟩ := Option.bind_eq_some_iff.mp h
  rw [remainders_select hm, List.head?_append, List.head?_map, hrest, Option.map_some,
    Option.some_or, Option.bind_some]
  rcases beforeFrom?_quote 0 false rest with hsame | ⟨hnone, -⟩
  · rw [hsame m u hm, hlist]
  · rw [hnone] at hlist
    exact absurd hlist (by simp)

/-- A quiet content is part of the list, or it makes no difference to the list. -/
theorem selectList?_span (x y : List Char) :
    (∃ r, ∀ m w, isQuote m = true → IsQuiet w → selectList? (x ++ m :: (w ++ m :: y)) = r) ∨
    ∃ x' y', ∀ m w, isQuote m = true → IsQuiet w →
      selectList? (x ++ m :: (w ++ m :: y)) = some (x' ++ m :: (w ++ m :: y')) := by
  have hremainders : ∀ m w, isQuote m = true → IsQuiet w →
      remainders (words ["SELECT"]) (x ++ m :: (w ++ m :: y)) =
        (remainders (words ["SELECT"]) x).map (· ++ m :: (w ++ m :: y)) ++
          remainders (words ["SELECT"]) y := by
    intro m w hm hw
    have hnone : remainders (words ["SELECT"]) w = [] := by
      have hselect := hw.select
      rw [holds_eq_isSome_remainders] at hselect
      simpa using hselect
    rw [remainders_select hm, remainders_select hm, hnone]
    rfl
  cases hx : remainders (words ["SELECT"]) x with
  | nil =>
    refine .inl ⟨(remainders (words ["SELECT"]) y).head?.bind (beforeFrom? 0 false), ?_⟩
    intro m w hm hw
    rw [selectList?_eq_bind, hremainders m w hm hw, hx]
    rfl
  | cons rest rests =>
    have hlist : ∀ m w, isQuote m = true → IsQuiet w → selectList? (x ++ m :: (w ++ m :: y)) =
        beforeFrom? 0 false (rest ++ m :: (w ++ m :: y)) := by
      intro m w hm hw
      rw [selectList?_eq_bind, hremainders m w hm hw, hx]
      rfl
    rcases beforeFrom?_quote 0 false rest with hsame | ⟨-, e, hpass⟩
    · refine .inl ⟨beforeFrom? 0 false rest, fun m w hm hw => ?_⟩
      rw [hlist m w hm hw, hsame m _ hm]
    · have hspan : ∀ m w, isQuote m = true → IsQuiet w → selectList? (x ++ m :: (w ++ m :: y)) =
          (beforeFrom? e false y).map fun y' => rest ++ m :: (w ++ m :: y') := by
        intro m w hm hw
        rw [hlist m w hm hw, hpass m _ hm, beforeFrom?_content hm hw.opening hw.closing hw.source,
          Option.map_map]
        rfl
      cases hy : beforeFrom? e false y with
      | none =>
        refine .inl ⟨none, fun m w hm hw => ?_⟩
        rw [hspan m w hm hw, hy, Option.map_none]
      | some y' =>
        refine .inr ⟨rest, y', fun m w hm hw => ?_⟩
        rw [hspan m w hm hw, hy, Option.map_some]

/-! ### What the select list selects -/

private theorem isSelectStar_of_quote (hm : isQuote m = true) {s x u : List Char}
    (h : selectList? s = some (x ++ m :: u)) : isSelectStar s =
      ((((afterKeyword? "DISTINCT" (trimStart x)).map trimStart).getD (trimStart x)).head? ==
        some '*') := by
  have hstar : ∀ t : List Char, ((t ++ m :: u).head? == some '*') = (t.head? == some '*') := by
    intro t
    cases t with
    | cons c t => rfl
    | nil => rcases eq_of_isQuote hm with rfl | rfl | rfl <;> rfl
  rw [isSelectStar, h]
  simp only [trimStart_quote hm]
  rw [afterKeyword?_quote hm (by decide)]
  cases afterKeyword? "DISTINCT" (trimStart x) with
  | none => exact hstar (trimStart x)
  | some items =>
    rw [Option.map_some, Option.map_some, Option.map_some, Option.getD_some, Option.getD_some,
      trimStart_quote hm, hstar]

private theorem isQuiet_nil : IsQuiet [] where
  opening := List.not_mem_nil
  closing := List.not_mem_nil
  select := by
    rw [holds, find?, occurrences, occurrencesFrom_nil, List.head?_nil, Option.isSome_none]
  source := rfl

/-- Around a quiet span, or behind a select list, everything is selected where it is without it. -/
theorem isSelectStar_span (hm : isQuote m = true) (x y : List Char)
    (h : (selectList? x).isSome = true ∨ IsQuiet w) :
    isSelectStar (x ++ m :: (w ++ m :: y)) = isSelectStar (hollow x y) := by
  have hempty : isQuote doubleQuote = true := by decide
  rcases h with hx | hw
  · obtain ⟨list, hlist⟩ := Option.isSome_iff_exists.mp hx
    rw [isSelectStar, isSelectStar, hollow, selectList?_quote hm hlist,
      selectList?_quote hempty hlist]
  · rcases selectList?_span x y with ⟨r, hr⟩ | ⟨x', y', hspan⟩
    · have hhollow : selectList? (hollow x y) = r := hr doubleQuote [] hempty isQuiet_nil
      rw [isSelectStar, isSelectStar, hr m w hm hw, hhollow]
    · have hhollow := hspan doubleQuote [] hempty isQuiet_nil
      rw [isSelectStar_of_quote hm (hspan m w hm hw)]
      exact (isSelectStar_of_quote hempty hhollow).symm

/-- A character adds a part when it is a separator outside of parentheses. -/
theorem length_splitTopLevelFrom_cons {sep : Char} (hsep : sep ≠ '(' ∧ sep ≠ ')') (d : Nat)
    (c : Char) (s : List Char) : (splitTopLevelFrom sep d (c :: s)).length =
      if c == sep && d == 0 then (splitTopLevelFrom sep d s).length + 1
      else (splitTopLevelFrom sep (depthAfter d c) s).length := by
  by_cases h : c = sep ∧ d = 0
  · obtain ⟨rfl, rfl⟩ := h
    rw [if_pos (by simp), splitTopLevelFrom_separator hsep, List.length_cons]
  · obtain ⟨part, parts, hparts⟩ :=
      List.exists_cons_of_ne_nil (Checked.splitTopLevelFrom_ne_nil sep (depthAfter d c) s)
    rw [if_neg (by simpa using h), splitTopLevelFrom_cons d s (by simpa using h), hparts]
    rfl

/-- The number of parts depends on the end of a text through the number of parts of this end. -/
theorem length_splitTopLevelFrom_append {sep : Char} (hsep : sep ≠ '(' ∧ sep ≠ ')')
    {z z' : List Char}
    (h : ∀ e, (splitTopLevelFrom sep e z).length = (splitTopLevelFrom sep e z').length) (d : Nat)
    (x : List Char) :
    (splitTopLevelFrom sep d (x ++ z)).length = (splitTopLevelFrom sep d (x ++ z')).length := by
  induction x generalizing d with
  | nil => exact h d
  | cons c x ih =>
    rw [List.cons_append, List.cons_append, length_splitTopLevelFrom_cons hsep,
      length_splitTopLevelFrom_cons hsep, ih, ih]

/-- What is neither a parenthesis nor a separator adds no part. -/
theorem length_splitTopLevelFrom_flat {sep : Char} (hsep : sep ≠ '(' ∧ sep ≠ ')')
    {x : List Char} (hx : ∀ c ∈ x, c ≠ '(' ∧ c ≠ ')' ∧ c ≠ sep) (d : Nat) (z : List Char) :
    (splitTopLevelFrom sep d (x ++ z)).length = (splitTopLevelFrom sep d z).length := by
  induction x with
  | nil => rfl
  | cons c x ih =>
    obtain ⟨hopen, hclose, hne⟩ := hx c (List.mem_cons_self ..)
    have hdepth : depthAfter d c = d := by simp [depthAfter, hopen, hclose]
    have hmark : ¬ (c == sep && d == 0) = true := by simp [hne]
    rw [List.cons_append, length_splitTopLevelFrom_cons hsep, if_neg hmark, hdepth]
    exact ih fun e he => hx e (List.mem_cons_of_mem c he)

/-- A span without parentheses and commas in it adds no column. -/
theorem columnCount_of_quote (hm : isQuote m = true) (hw : ∀ c ∈ w, c ≠ '(' ∧ c ≠ ')' ∧ c ≠ ',')
    {s x y : List Char} (h : selectList? s = some (x ++ m :: (w ++ m :: y))) :
    columnCount s = (splitTopLevel ',' (trimStart x ++ trimEnd y)).length := by
  have hcomma : ',' ≠ '(' ∧ ',' ≠ ')' := by decide
  have htrim : trim (x ++ m :: (w ++ m :: y)) = trimStart x ++ m :: (w ++ m :: trimEnd y) := by
    rw [trim, trimStart_quote hm, trimEnd_quote hm, trimEnd_quote hm]
  have hstar : ¬ (trimStart x ++ m :: (w ++ m :: trimEnd y) = [] ∨
      trimStart x ++ m :: (w ++ m :: trimEnd y) = ['*']) := by
    rintro (hnil | hstar)
    · exact absurd (List.append_eq_nil_iff.mp hnil).2 (List.cons_ne_nil _ _)
    · have hlength := congrArg List.length hstar
      simp only [List.length_append, List.length_cons, List.length_nil] at hlength
      omega
  have hspan : ∀ c ∈ m :: (w ++ [m]), c ≠ '(' ∧ c ≠ ')' ∧ c ≠ ',' := by
    have hmark : m ≠ '(' ∧ m ≠ ')' ∧ m ≠ ',' := by
      rcases eq_of_isQuote hm with rfl | rfl | rfl <;> decide
    intro c hc
    rcases List.mem_cons.mp hc with rfl | hc
    · exact hmark
    rcases List.mem_append.mp hc with hc | hc
    · exact hw c hc
    · exact List.mem_singleton.mp hc ▸ hmark
  rw [columnCount, h, Option.map_some, htrim]
  simp only [if_neg hstar]
  apply length_splitTopLevelFrom_append hcomma
  intro e
  have hflat := length_splitTopLevelFrom_flat hcomma hspan e (trimEnd y)
  simpa using hflat

/-- Around a quiet span without commas, or behind a select list, there are as many columns. -/
theorem columnCount_span (hm : isQuote m = true) (x y : List Char)
    (h : (selectList? x).isSome = true ∨ IsQuiet w ∧ ',' ∉ w) :
    columnCount (x ++ m :: (w ++ m :: y)) = columnCount (hollow x y) := by
  have hempty : isQuote doubleQuote = true := by decide
  rcases h with hx | ⟨hw, hcomma⟩
  · obtain ⟨list, hlist⟩ := Option.isSome_iff_exists.mp hx
    rw [columnCount, columnCount, hollow, selectList?_quote hm hlist,
      selectList?_quote hempty hlist]
  · rcases selectList?_span x y with ⟨r, hr⟩ | ⟨x', y', hspan⟩
    · have hhollow : selectList? (hollow x y) = r := hr doubleQuote [] hempty isQuiet_nil
      rw [columnCount, columnCount, hr m w hm hw, hhollow]
    · have hflat : ∀ c ∈ w, c ≠ '(' ∧ c ≠ ')' ∧ c ≠ ',' := by
        intro c hc
        refine ⟨?_, ?_, ?_⟩ <;> rintro rfl
        · exact hw.opening hc
        · exact hw.closing hc
        · exact hcomma hc
      have hhollow := hspan doubleQuote [] hempty isQuiet_nil
      rw [columnCount_of_quote hm hflat (hspan m w hm hw)]
      exact (columnCount_of_quote hempty (by simp) hhollow).symm

/-! ### What is counted -/

/-- What is counted on the two sides of the span and in its content. -/
theorem count_span {a : Phrase} (ha : ∀ m, isQuote m = true → a.avoids m = true) (hmoves : a.Moves)
    (hm : isQuote m = true) (x w y : List Char) :
    count a (x ++ m :: (w ++ m :: y)) = count a (hollow x y) + count a w := by
  have hempty : isQuote doubleQuote = true := by decide
  have hnil : count a [] = 0 := by rw [count, occurrences, occurrencesFrom_nil, List.length_nil]
  have hmark := fun s u => count_mark (isWordChar_of_isQuote hm) (ha m hm) hmoves s u
  have hhollow : count a (hollow x y) = count a x + (count a [] + count a y) := by
    have hdouble := fun s u => count_mark (isWordChar_of_isQuote hempty) (ha _ hempty) hmoves s u
    rw [hollow, hdouble, ← List.nil_append (doubleQuote :: y), hdouble]
  rw [hmark, hmark, hhollow, hnil]
  omega

/-- The joins around a span are those around an empty one and those in it. -/
theorem joinCount_span (hm : isQuote m = true) (x w y : List Char) :
    joinCount (x ++ m :: (w ++ m :: y)) = joinCount (hollow x y) + joinCount w := by
  refine count_span ?_ (sought_join .none).moves hm x w y
  intro m hm
  rcases eq_of_isQuote hm with rfl | rfl | rfl <;> decide

/-- No call of an aggregate function takes a quotation mark. -/
theorem avoids_aggregateCall (hm : isQuote m = true) : aggregateCall.avoids m = true := by
  have hopening : (m == '(') = false := (inner_mark (by decide) (by decide)).quote m hm
  have hcall : ∀ a ∈ aggregateFunctions.map callOf, a.avoids m = true := by
    intro a ha
    obtain ⟨name, hname, rfl⟩ := List.mem_map.mp ha
    have hletters := avoids_letters (isForeign_of_mem_aggregateFunctions name hname) hm
    simp [callOf, all, avoids, Phrase.blanks, hletters, isBlank_of_isQuote hm, hopening]
  exact Bool.and_eq_true_iff.mpr ⟨rfl, avoids_any hcall⟩

/-- The aggregate calls around a span are those around an empty one and those in it. -/
theorem aggregateCount_span (hm : isQuote m = true) (x w y : List Char) :
    aggregateCount (x ++ m :: (w ++ m :: y)) = aggregateCount (hollow x y) + aggregateCount w := by
  exact count_span (fun _ => avoids_aggregateCall) (sought_aggregateCall .none).moves hm x w y

/-- The clauses that either of two texts has. -/
def ClauseFlags.or (a b : ClauseFlags) : ClauseFlags where
  hasDistinct := a.hasDistinct || b.hasDistinct
  hasGroupBy := a.hasGroupBy || b.hasGroupBy
  hasOrderBy := a.hasOrderBy || b.hasOrderBy
  hasLimit := a.hasLimit || b.hasLimit
  hasPrewhere := a.hasPrewhere || b.hasPrewhere
  hasWhere := a.hasWhere || b.hasWhere

/-- The clauses on the two sides of the span and in its content. -/
theorem clauseFlags_span (hm : isQuote m = true) (x w y : List Char) :
    clauseFlags (x ++ m :: (w ++ m :: y)) = (clauseFlags (hollow x y)).or (clauseFlags w) := by
  have hholds : ∀ keywords : List String, AreKeywords keywords →
      ((words keywords).avoids apostrophe && (words keywords).avoids doubleQuote &&
        (words keywords).avoids backtick) = true →
      holds (words keywords) (x ++ m :: (w ++ m :: y)) =
        (holds (words keywords) (hollow x y) || holds (words keywords) w) := by
    intro keywords hk ha
    simp only [Bool.and_eq_true, and_assoc] at ha
    have havoids : ∀ m, isQuote m = true → (words keywords).avoids m = true := by
      intro m hm
      rcases eq_of_isQuote hm with rfl | rfl | rfl
      exacts [ha.1, ha.2.1, ha.2.2]
    have hcount := count_span havoids (sought_words (f := .none) hk).moves hm x w y
    rw [Bool.eq_iff_iff, Bool.or_eq_true, holds_iff_count_pos, holds_iff_count_pos,
      holds_iff_count_pos, hcount]
    omega
  simp only [clauseFlags, ClauseFlags.or]
  rw [hholds _ (by decide) (by decide), hholds _ (by decide) (by decide),
    hholds _ (by decide) (by decide), hholds _ (by decide) (by decide),
    hholds _ (by decide) (by decide), hholds _ (by decide) (by decide)]

end SqlReview.Query

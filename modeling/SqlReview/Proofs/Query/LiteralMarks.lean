import SqlReview.Proofs.Lexical.Normalized
import SqlReview.Proofs.Query.NamesBehind
import SqlReview.Proofs.Query.PrologueEnd
import SqlReview.Proofs.Query.SpanMetrics

/-!
# Literals in either kind of quotation mark

A statement that ends with a comparison to a string literal. In apostrophes the literal is blanked
before names are read, and in double quotes it is read as an identifier. All metrics but the number
of tables are the same, and the tables differ by the names that are read from the literal.
-/

namespace SqlReview.Query

open SqlReview.Text SqlReview.Lexical SqlReview.Search

variable {p w : List Char}

/-! ### Bound names -/

/-- Where no parenthesis opens, no name is bound. -/
theorem Binder.names_standing_unopened (b : Binder) {s : List Char} (hs : '(' ∉ s) :
    (b.standing s).names = b.names := by
  induction s using symbols_induction generalizing b with
  | nil => rw [standing]; rfl
  | opening s ih => exact absurd (List.mem_cons_self ..) hs
  | closing s ih =>
    rw [List.mem_cons, not_or] at hs
    rw [standing_closing, ih _ hs.2, names_onClosing]
  | comma s ih =>
    rw [List.mem_cons, not_or] at hs
    rw [standing_comma, ih _ hs.2, onComma]
    split <;> rfl
  | quoted m w s hm hw ih =>
    rw [List.mem_cons, List.mem_append, List.mem_cons, not_or, not_or, not_or] at hs
    rw [standing_quoted b hm hw, ih _ hs.2.2.2, names_onWord]
  | unclosed m s hm hmem =>
    rw [standing_unclosed b hm hmem]
    rfl
  | word w s hne hw hrest ih =>
    rw [List.mem_append, not_or] at hs
    rw [standing_word b hne hw hrest]
    split
    · rfl
    · rw [ih _ hs.2, names_onWord]
  | unread c s hc ih =>
    rw [List.mem_cons, not_or] at hs
    rw [standing_unread b hc, ih _ hs.2]

private theorem Standing.names_resume_unopened (st : Standing) {z : List Char} (hz : '(' ∉ z) :
    (st.resume z).names = st.names := by
  cases st with
  | done names => rfl
  | between b => exact b.names_standing_unopened hz
  | inside b m w =>
    rw [resume]
    split
    · rw [Binder.names_standing_unopened, Binder.names_onWord]
      · rfl
      · intro h
        exact hz ((List.dropWhile_sublist _).subset ((List.drop_sublist 1 _).subset h))
    · rfl

/-- A part of a text escapes no mark when the text does not. -/
theorem escapesMark_of_append {mark : Option Char} {s t : List Char}
    (h : escapesMark mark (s ++ t) = false) : escapesMark mark s = false := by
  fun_induction escapesMark mark s with
  | case1 => rfl
  | case2 c s ih => exact ih h
  | case3 m c s ih =>
    have hboth : (c == m && m != apostrophe) = false ∧
        escapesMark (some m) (s ++ t) = false := Bool.or_eq_false_iff.mp h
    rw [hboth.1, ih hboth.2]
    rfl
  | case4 m c s hc ih =>
    cases s with
    | nil => unfold escapesMark; rfl
    | cons d s =>
      refine ih ?_
      rw [List.cons_append, List.cons_append, escapesMark] at h
      · exact h
      · intro e u hslash _
        exact hc d s hslash rfl

/-- The text of a comparison to a literal. -/
def comparison (m : Char) (w : List Char) : List Char :=
  " = ".toList ++ m :: (w ++ [m])

/-- A reader of names that stands between two symbols binds no name in a comparison. -/
theorem Binder.names_standing_comparison (b : Binder) (hw : doubleQuote ∉ w) :
    (b.standing (comparison doubleQuote w)).names = b.names := by
  have hmark : ∀ c ∈ w, (c != doubleQuote) = true :=
    fun c hc => bne_iff_ne.mpr fun heq => hw (heq ▸ hc)
  have hspace : isUnread ' ' = true := by decide
  have hequals : isUnread '=' = true := by decide
  have htext : comparison doubleQuote w =
      ' ' :: '=' :: ' ' :: doubleQuote :: (w ++ [doubleQuote]) := rfl
  rw [htext, standing_unread b hspace, standing_unread b hequals, standing_unread b hspace,
    standing_quoted b (.inr rfl) hmark, standing]
  exact b.names_onWord w

variable {m : Char}

private theorem append_comparison (s : List Char) (m : Char) (w : List Char) :
    s ++ comparison m w = (s ++ " = ".toList) ++ m :: (w ++ m :: []) :=
  (List.append_assoc ..).symm

/-- Only a literal in apostrophes is blanked. -/
theorem blankStrings_comparison (hp : Whole p) (hm : isQuote m = true) (hw : SpanText m w) :
    blankStrings (p ++ comparison m w) =
      blankStrings p ++ comparison m (w.flatMap (content (m == apostrophe))) := by
  have hequals : Whole " = ".toList := .of_forall (by decide)
  rw [append_comparison, append_comparison, blankStrings,
    (hp.append hequals).blankFrom_span _ hm hw, hp.blankFrom_append]
  rfl

private theorem hasPrologue_comparison (hm : isQuote m = true) (s w : List Char) :
    hasPrologue (s ++ comparison m w) = hasPrologue (s ++ " = ".toList) := by
  rw [append_comparison, hasPrologue_quote hm]

/-- A reader goes on behind a text with a comparison that opens no parenthesis, and binds no
name. -/
theorem names_standing_unopened_comparison (hm : isQuote m = true) (hw : '(' ∉ w)
    (s : List Char) : (({} : Binder).standing (s ++ comparison m w)).names =
      (({} : Binder).standing s).names := by
  have hstart : startsInName (comparison m w) = false := (by decide : isNameChar ' ' = false)
  have hne : m ≠ '(' := by
    rintro rfl
    exact absurd hm (by decide)
  rw [Binder.standing_append _ _ (.inl hstart), Standing.names_resume_unopened]
  simp [comparison, hw, hne.symm]

private theorem boundNames_eq_names (s : List Char) :
    boundNames s = if hasPrologue s then (({} : Binder).standing s).names else [] := by
  rw [boundNames, Binder.run_tokens]

/-- A reader of names comes to the same names in front of a comparison and behind it, unless a mark
of an identifier is escaped and the literal holds a parenthesis. -/
theorem names_standing_comparison (hp : Whole p) (hw : ∀ c ∈ w, isQuote c = false ∧ c ≠ backslash)
    (h : escapesMark none p = false ∨ '(' ∉ w) :
    (({} : Binder).standing (blankStrings p ++ comparison doubleQuote w)).names =
      (({} : Binder).standing (blankStrings p)).names := by
  have hdouble : isQuote doubleQuote = true := rfl
  have hspan : SpanText doubleQuote w := .of_forall hdouble hw
  have hkept : w.flatMap (content (doubleQuote == apostrophe)) = w := List.flatMap_singleton' w
  have hblanked := blankStrings_comparison hp hdouble hspan
  rw [hkept] at hblanked
  have hstart : startsInName (comparison doubleQuote w) = false :=
    (by decide : isNameChar ' ' = false)
  have hresume := ({} : Binder).standing_append (blankStrings p) (.inl hstart)
  rcases h with hescapes | hopen
  · rcases Whole.passage_or_select hp 0 with ⟨e, hpassage⟩ | ⟨a, x, rfl, ha, hlast, hx, hselect⟩
    · obtain ⟨b, -, hstanding⟩ := hpassage.standing hescapes (b := {}) rfl
      have hmem : doubleQuote ∉ w := by
        intro hmem
        rw [(hw doubleQuote hmem).1] at hdouble
        exact Bool.noConfusion hdouble
      rw [hresume, hstanding]
      exact b.names_standing_comparison hmem
    · -- the reader is done before the end of `p`
      obtain ⟨b, hdepth, hstanding⟩ := ha.standing (escapesMark_of_append hescapes) (b := {}) rfl
      have hselect' : startsWith "SELECT" (x ++ comparison doubleQuote w) = true := by
        rw [startsWith, afterKeyword?_append_of_startsInName (by decide) hstart, Option.isSome_map]
        exact hselect
      have hlast' : (blankStrings a).getLast?.any isNameChar = false := by
        rw [blankStrings, ha.whole.getLast?_blankFrom, hlast]
      have hnames : ∀ z, startsWith "SELECT" z = true →
          (({} : Binder).standing (blankStrings (a ++ z))).names = b.names := by
        intro z hz
        have hrest : (Standing.between b).AtRest := hdepth
        rw [blankStrings, ha.whole.blankFrom_append, ← blankStrings, ← blankStrings,
          Binder.standing_append _ _ (.inr hlast'), hstanding, hrest.names_resume hz]
        rfl
      rw [← hblanked, List.append_assoc, hnames _ hselect', hnames x hselect]
  · exact names_standing_unopened_comparison hdouble hopen _

/-- The names that a statement binds do not depend on the marks of a literal at its end, unless a
mark of an identifier is escaped and the literal holds a parenthesis. -/
theorem boundNames_comparison (hp : Whole p) (hw : ∀ c ∈ w, isQuote c = false ∧ c ≠ backslash)
    (h : escapesMark none p = false ∨ '(' ∉ w) :
    boundNames (blankStrings (p ++ comparison doubleQuote w)) =
      boundNames (blankStrings (p ++ comparison apostrophe w)) := by
  obtain ⟨n, hn⟩ := exists_flatMap_content w
  have hkept : w.flatMap (content (doubleQuote == apostrophe)) = w := List.flatMap_singleton' w
  have hfilled : w.flatMap (content (apostrophe == apostrophe)) = List.replicate n filler := hn
  have hopen : '(' ∉ List.replicate n filler :=
    fun h => absurd (List.eq_of_mem_replicate h) (by decide)
  rw [blankStrings_comparison hp rfl (.of_forall rfl hw),
    blankStrings_comparison hp rfl (.of_forall rfl hw), hkept, hfilled, boundNames_eq_names,
    boundNames_eq_names, hasPrologue_comparison rfl, hasPrologue_comparison rfl,
    names_standing_comparison hp hw h, names_standing_unopened_comparison rfl hopen]

/-! ### Names of tables -/

/-- No table is named in a blanked literal. -/
theorem names_fillers (n : Nat) :
    let r := apostrophe :: (List.replicate n filler ++ [apostrophe])
    ',' ∉ r ∧ listTexts false r = [] ∧ ∀ keyword ∈ introducers, namesAfter keyword r = [] := by
  have hother : ∀ keyword ∈ introducers,
      sameText (List.replicate n filler) keyword.toList = false := by
    intro keyword hk
    cases n with
    | zero => exact (by decide : ∀ k ∈ introducers, sameText [] k.toList = false) keyword hk
    | succ n =>
      rw [List.replicate_succ]
      rcases List.mem_cons.mp hk with rfl | hk
      · simp [sameText, lowerAscii, filler]
      · rcases List.mem_singleton.mp hk with rfl
        simp [sameText, lowerAscii, filler]
  have hname : ∀ c ∈ List.replicate n filler, isNameChar c = true ∧ isWordChar c = true := by
    intro c hc
    rw [List.eq_of_mem_replicate hc]
    decide
  refine ⟨?_, ?_, ?_⟩
  · intro hcomma
    rcases List.mem_append.mp ((List.mem_cons.mp hcomma).resolve_left (by decide)) with hc | hc
    · exact absurd (List.eq_of_mem_replicate hc) (by decide)
    · exact absurd (List.mem_singleton.mp hc) (by decide)
  · have hmark : ∀ s, listTexts false (apostrophe :: s) = listTexts false s :=
      listTexts_mark (by decide) false
    rw [hmark]
    cases n with
    | zero => exact hmark []
    | succ n =>
      have hne : List.replicate (n + 1) filler ≠ [] := List.cons_ne_nil filler _
      have hend : startsInName [apostrophe] = false := by decide
      rw [listTexts_word hne (fun c hc => (hname c hc).1) hend, hother "FROM" (by decide), hmark]
      rfl
  · intro keyword hk
    rw [namesAfter_mark hk (by decide),
      namesAfter_word hk (fun c hc => (hname c hc).2) (hother keyword hk) (by decide),
      namesAfter_mark hk (by decide)]
    simp [namesAfter, occurrences]

/-- What is read of a literal in double quotes. -/
def readLiteral (w : List Char) : List Char :=
  doubleQuote :: (w ++ [doubleQuote])

/-- The names of tables that are read from a literal in double quotes, which stands behind an equals
sign after `s`: names after a `FROM` or a `JOIN` in it, and items of lists. -/
def literalNames (s w : List Char) : List (List Char) :=
  introducedNames (readLiteral w) ++ carriedNames (s ++ [' ']) (readLiteral w)

private theorem comparison_eq (s : List Char) (m : Char) (w : List Char) :
    s ++ comparison m w = (s ++ [' ']) ++ '=' :: ' ' :: m :: (w ++ [m]) := by
  simp [comparison]

/-- The names that are found with double quotes are those found with apostrophes and those read from
the literal. -/
theorem mem_foundNames_comparison (s w name : List Char) (n : Nat) :
    name ∈ foundNames (s ++ comparison doubleQuote w) ↔
      name ∈ foundNames (s ++ comparison apostrophe (List.replicate n filler)) ∨
        name ∈ literalNames s w := by
  obtain ⟨hcomma, hlists, hnames⟩ := names_fillers n
  rw [comparison_eq, comparison_eq, mem_foundNames_equals hcomma hlists hnames, literalNames,
    List.mem_append]
  rfl

/-- Without a comma in the literal only the names after a `FROM` or a `JOIN` in it are new. -/
theorem mem_literalNames_of_notMem {s w name : List Char} (hw : ',' ∉ w) (n : Nat)
    (h : name ∈ literalNames s w) : name ∈ introducedNames (readLiteral w) ∨
      name ∈ foundNames (s ++ comparison apostrophe (List.replicate n filler)) := by
  rcases List.mem_append.mp h with h | h
  · exact .inl h
  · have hread : ',' ∉ readLiteral w := by
      intro hc
      rcases List.mem_append.mp ((List.mem_cons.mp hc).resolve_left (by decide)) with hc | hc
      · exact hw hc
      · exact absurd (List.mem_singleton.mp hc) (by decide)
    rw [comparison_eq]
    exact .inr (List.mem_append_right _ (mem_itemsByList_of_mem_carriedNames hread h _))

private theorem introducedNames_eq_nil (hfrom : holds (.words ["FROM"]) w = false)
    (hjoin : holds (.words ["JOIN"]) w = false) : introducedNames (readLiteral w) = [] := by
  have hread : ∀ keyword, Phrase.AreKeywords [keyword] →
      (Phrase.words [keyword]).avoids doubleQuote = true → holds (.words [keyword]) w = false →
      holds (.words [keyword]) (readLiteral w) = false := by
    intro keyword hkeyword havoids hw
    have hmark := count_mark (isWordChar_of_isQuote (m := doubleQuote) rfl) havoids
      (Phrase.sought_words (f := .none) hkeyword).moves
    have hnil : count (.words [keyword]) [] = 0 := by
      rw [count, occurrences, occurrencesFrom_nil, List.length_nil]
    rw [← Bool.not_eq_true, holds_iff_count_pos] at hw ⊢
    rw [readLiteral, ← List.nil_append (doubleQuote :: (w ++ [doubleQuote])), hmark, hmark, hnil]
    omega
  rw [introducedNames, namesAfter_eq_nil (by decide) (hread "FROM" (by decide) (by decide) hfrom),
    namesAfter_eq_nil (by decide) (hread "JOIN" (by decide) (by decide) hjoin)]
  rfl

/-! ### Statements -/

/-- Comments are removed in front of a comparison. -/
theorem removeComments_comparison (hp : Region.code.after p = .code) (hm : isQuote m = true)
    (hw : SpanText m w) :
    removeComments (p ++ comparison m w) = removeComments p ++ comparison m w := by
  have hblank : BlankLed (comparison m w) := by
    intro c hc
    obtain rfl : ' ' = c := Option.some.inj hc
    decide
  have hequals : Region.code.after " = ".toList = .code := by decide
  have hspan := removeComments_span hequals hm hw []
  rw [removeComments, (read_append (r := .code) trivial p hblank).2, hp]
  exact congrArg (removeComments p ++ ·) hspan

/-- All metrics but the number of tables are those with an empty literal. -/
theorem metricsOf_comparison_eq (hp : Region.code.after p = .code)
    (hm : m = apostrophe ∨ m = doubleQuote) (hw : ∀ c ∈ w, isQuote c = false ∧ c ≠ backslash) :
    metricsOf (p ++ comparison m w) =
      mainMetrics (structureOf (p ++ comparison m w)).tables.length
        (mainQuery (hollow (removeComments p ++ " = ".toList) [])) := by
  have hquote : isQuote m = true := by rcases hm with rfl | rfl <;> rfl
  have hspan : SpanText m w := .of_forall hquote hw
  have hequals : Whole " = ".toList := .of_forall (by decide)
  have hremove := removeComments_comparison hp hquote hspan
  rw [append_comparison (removeComments p)] at hremove
  rw [← mainMetrics_literal ((whole_removeComments hp).append hequals) hm hspan, ← hremove]
  rfl

private theorem length_eq_iff_of_gained {tables tables' bound gained : List (List Char)}
    (htables : tables.Nodup) (htables' : tables'.Nodup)
    (h : ∀ name, name ∈ tables' ↔ name ∈ tables ∨ name ∉ bound ∧ name ∈ gained) :
    tables'.length = tables.length ↔ ∀ name ∈ gained, name ∈ bound ∨ name ∈ tables := by
  have hsubset : tables ⊆ tables' := fun name hname => (h name).mpr (.inl hname)
  rw [length_eq_iff_of_subset htables htables' hsubset]
  constructor
  · intro hback name hgained
    by_cases hbound : name ∈ bound
    · exact .inl hbound
    · exact .inr (hback ((h name).mpr (.inr ⟨hbound, hgained⟩)))
  · intro hall name hname
    rcases (h name).mp hname with hname | ⟨hfree, hgained⟩
    · exact hname
    · exact (hall name hgained).resolve_left hfree

section Comparison

variable (hp : Region.code.after p = .code) (hw : ∀ c ∈ w, isQuote c = false ∧ c ≠ backslash)

include hp hw

private theorem blankStrings_double :
    blankStrings (removeComments (p ++ comparison doubleQuote w)) =
      blankStrings (removeComments p) ++ comparison doubleQuote w := by
  have hspan : SpanText doubleQuote w := .of_forall rfl hw
  have hkept : w.flatMap (content (doubleQuote == apostrophe)) = w := List.flatMap_singleton' w
  rw [removeComments_comparison hp rfl hspan,
    blankStrings_comparison (whole_removeComments hp) rfl hspan, hkept]

/-- The text that names are read from, with apostrophes. -/
theorem exists_blankStrings_single : ∃ n,
    blankStrings (removeComments (p ++ comparison apostrophe w)) =
      blankStrings (removeComments p) ++ comparison apostrophe (List.replicate n filler) := by
  have hspan : SpanText apostrophe w := .of_forall rfl hw
  obtain ⟨n, hn⟩ := exists_flatMap_content w
  have hfilled : w.flatMap (content (apostrophe == apostrophe)) = List.replicate n filler := hn
  refine ⟨n, ?_⟩
  rw [removeComments_comparison hp rfl hspan,
    blankStrings_comparison (whole_removeComments hp) rfl hspan, hfilled]

/-- When the bound names are the same, the tables with double quotes are those with apostrophes and
the names read from the literal that are not bound. -/
theorem mem_tables_comparison
    (hbound : (structureOf (p ++ comparison doubleQuote w)).boundNames =
      (structureOf (p ++ comparison apostrophe w)).boundNames) (name : List Char) :
    name ∈ (structureOf (p ++ comparison doubleQuote w)).tables ↔
      name ∈ (structureOf (p ++ comparison apostrophe w)).tables ∨
        name ∉ (structureOf (p ++ comparison apostrophe w)).boundNames ∧
          name ∈ literalNames (blankStrings (removeComments p)) w := by
  obtain ⟨n, hn⟩ := exists_blankStrings_single hp hw
  have hfound : ∀ s, name ∈ (structureOf s).tables ↔ name ∉ (structureOf s).boundNames ∧
      name ∈ foundNames (blankStrings (removeComments s)) := fun _ => mem_tables_found
  rw [hfound, hfound, hbound, blankStrings_double hp hw, mem_foundNames_comparison _ w name n, hn,
    ← and_or_left]

/-- Without a comma in the literal each name that is read from it follows a `FROM` or a `JOIN` in
it, or it is found with apostrophes as well. -/
theorem introduced_or_table_of_notMem (hcomma : ',' ∉ w) {name : List Char}
    (h : name ∈ literalNames (blankStrings (removeComments p)) w) :
    name ∈ introducedNames (readLiteral w) ∨
      name ∈ (structureOf (p ++ comparison apostrophe w)).boundNames ∨
        name ∈ (structureOf (p ++ comparison apostrophe w)).tables := by
  obtain ⟨n, hn⟩ := exists_blankStrings_single hp hw
  rcases mem_literalNames_of_notMem hcomma n h with h | h
  · exact .inl h
  · rw [← hn] at h
    by_cases hbound : name ∈ (structureOf (p ++ comparison apostrophe w)).boundNames
    · exact .inr (.inl hbound)
    · exact .inr (.inr (mem_tables_found.mpr ⟨hbound, h⟩))

end Comparison

/-- A comparison to a literal, which stands at the end of a statement. Whether the literal is in
apostrophes or in double quotes makes no difference to any metric but the number of tables. With
double quotes the literal is read for names of tables: names after a `FROM` or a `JOIN` in it, and
items of lists that go on into it behind a comma. Nothing at all changes exactly when each of these
names is bound or is the name of a table with apostrophes. -/
theorem metricsOf_comparison (hp : Region.code.after p = .code)
    (hw : ∀ c ∈ w, isQuote c = false ∧ c ≠ backslash) :
    let single := structureOf (p ++ comparison apostrophe w)
    let double := structureOf (p ++ comparison doubleQuote w)
    let gained := literalNames (blankStrings (removeComments p)) w
    double.metrics = { single.metrics with tableCount := double.tables.length } ∧
      (escapesMark none (removeComments p) = false ∨ '(' ∉ w →
        double.boundNames = single.boundNames) ∧
      (double.boundNames = single.boundNames →
        (∀ name, name ∈ double.tables ↔
          name ∈ single.tables ∨ name ∉ single.boundNames ∧ name ∈ gained) ∧
        (double.metrics = single.metrics ↔
          ∀ name ∈ gained, name ∈ single.boundNames ∨ name ∈ single.tables) ∧
        (',' ∉ w → (double.metrics = single.metrics ↔
          ∀ name ∈ introducedNames (readLiteral w),
            name ∈ single.boundNames ∨ name ∈ single.tables))) ∧
      (holds (.words ["FROM"]) w = false → holds (.words ["JOIN"]) w = false →
        introducedNames (readLiteral w) = []) := by
  intro single double gained
  have hmetrics : double.metrics = { single.metrics with tableCount := double.tables.length } := by
    have hsingle : single.metrics = _ := metricsOf_comparison_eq hp (.inl rfl) hw
    have hdouble : double.metrics = _ := metricsOf_comparison_eq hp (.inr rfl) hw
    rw [hsingle, hdouble]
    rfl
  have hcount : double.metrics = single.metrics ↔ double.tables.length = single.tables.length := by
    constructor
    · intro h
      exact congrArg Metrics.tableCount h
    · intro h
      rw [hmetrics, h]
      rfl
  refine ⟨hmetrics, ?_, fun hbound => ?_, introducedNames_eq_nil⟩
  · intro h
    have hnames := boundNames_comparison (whole_removeComments hp) hw h
    rw [← removeComments_comparison hp rfl (.of_forall rfl hw),
      ← removeComments_comparison hp rfl (.of_forall rfl hw)] at hnames
    exact hnames
  · have htables := mem_tables_comparison hp hw hbound
    have hgained : double.metrics = single.metrics ↔
        ∀ name ∈ gained, name ∈ single.boundNames ∨ name ∈ single.tables :=
      hcount.trans (length_eq_iff_of_gained (nodup_tables _ _) (nodup_tables _ _) htables)
    refine ⟨htables, hgained, fun hcomma => hgained.trans ⟨?_, ?_⟩⟩
    · intro h name hname
      exact h name (List.mem_append_left _ hname)
    · intro h name hname
      rcases introduced_or_table_of_notMem hp hw hcomma hname with hname | hname
      · exact h name hname
      · exact hname

/-- A literal that holds a clause and a parenthesis, but neither a comma nor a keyword that
introduces a table: its marks make no difference. -/
theorem metricsOf_comparison_clause :
    let p := "WITH v AS (SELECT \"n\" FROM s) SELECT a FROM v, t JOIN u ON b".toList
    let w := "x WHERE (y".toList
    Region.code.after p = .code ∧ (∀ c ∈ w, isQuote c = false ∧ c ≠ backslash) ∧
      escapesMark none (removeComments p) = false ∧
      (structureOf (p ++ comparison doubleQuote w)).boundNames =
        (structureOf (p ++ comparison apostrophe w)).boundNames ∧
      metricsOf (p ++ comparison doubleQuote w) = metricsOf (p ++ comparison apostrophe w) := by
  intro p w
  have hp : Region.code.after p = .code := by decide
  have hw : ∀ c ∈ w, isQuote c = false ∧ c ≠ backslash := by decide
  have hescapes : escapesMark none (removeComments p) = false := by decide
  obtain ⟨-, hnames, htables, hkeywords⟩ := metricsOf_comparison hp hw
  have hbound := hnames (.inl hescapes)
  refine ⟨hp, hw, hescapes, hbound, ((htables hbound).2.2 (by decide)).mpr fun name hname => ?_⟩
  rw [hkeywords (by decide +kernel) (by decide +kernel)] at hname
  exact absurd hname List.not_mem_nil

/-- In double quotes a `FROM` of a literal introduces a table. -/
theorem metricsOf_from_literal :
    let p := "SELECT a FROM t WHERE b".toList
    let w := "x FROM y".toList
    Region.code.after p = .code ∧ removeComments p = p ∧
      (∀ c ∈ w, isQuote c = false ∧ c ≠ backslash) ∧
      (metricsOf (p ++ comparison doubleQuote w)).tableCount = 2 ∧
      (metricsOf (p ++ comparison apostrophe w)).tableCount = 1 := by
  decide +kernel

end SqlReview.Query

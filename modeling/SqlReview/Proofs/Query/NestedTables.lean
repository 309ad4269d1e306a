import SqlReview.Proofs.Query.NestedSelect

/-!
# Tables of statements with nested lists

Whatever the width and the depth of a statement with nested lists, the tables that are found in it
are the names that stand as sources at any depth. The first source of each list is found by the
search for a `FROM`, the others by the scan of the list, and a list goes on behind the lists that
are nested in it. Both come to the same places, for what they look for begins at a `FROM`.
-/

namespace SqlReview.Query

open SqlReview.Text SqlReview.Lexical SqlReview.Search

/-! ### Scans from word to word -/

/-- Whether a text begins with no character of a word. -/
def BeginsNoWord (s : List Char) : Prop :=
  startsInName s = false ∧ s.head?.any isWordChar = false

/-- A scan that passes over all words but one keyword, and over what is no word. -/
structure PassesWords (keyword : String) (f : List Char → List (List Char)) : Prop where
  word : ∀ {w s : List Char}, w ≠ [] → (∀ c ∈ w, c.toNat < 128 ∧ isNameChar c = true) →
    sameText w keyword.toList = false → BeginsNoWord s → f (w ++ s) = f s
  mark : ∀ {c : Char} (s : List Char), isNameChar c = false → isWordChar c = false →
    f (c :: s) = f s

private theorem passesWords_listTexts : PassesWords "FROM" (listTexts false) where
  word hne hw hkeyword hs := by
    rw [listTexts_word hne (fun c hc => (hw c hc).2) hs.1, hkeyword]
    rfl
  mark s hname _ := listTexts_mark hname false s

private theorem passesWords_namesAfter {keyword : String} (hk : keyword ∈ introducers) :
    PassesWords keyword (namesAfter keyword) where
  word _ hw hkeyword hs :=
    namesAfter_word hk (fun c hc => by rw [isWordChar_eq_isNameChar (hw c hc).1]; exact (hw c hc).2)
      hkeyword hs.2
  mark s _ hword := namesAfter_mark hk hword s

private theorem beginsNoWord_cons {c : Char} (h : isNameChar c = false ∧ isWordChar c = false)
    (s : List Char) : BeginsNoWord (c :: s) := h

private theorem Gap.beginsNoWord (gap : Gap) (s : List Char) : BeginsNoWord (gap.val ++ s) :=
  ⟨gap.startsInName s, gap.head?_any (solid_isWordChar .none).blank s⟩

private theorem EndsSource.beginsNoWord {z : List Char} (h : EndsSource z) : BeginsNoWord z :=
  ⟨h.startsInName, h.head?_any (solid_isWordChar .none).blank (by decide)⟩

private theorem Label.beginsNoWord (l : Label) {s : List Char} (hs : BeginsNoWord s) :
    BeginsNoWord (l.text ++ s) :=
  ⟨l.startsInName hs.1, l.head?_any (solid_isWordChar .none).blank hs.2⟩

private theorem beginsNoWord_blanks {v s : List Char} (hv : isBlankText v = true)
    (hs : BeginsNoWord s) : BeginsNoWord (v ++ s) := by
  cases v with
  | nil => exact hs
  | cons c v =>
    have hc := List.all_eq_true.mp hv c (List.mem_cons_self ..)
    exact ⟨isNameChar_of_isBlank hc, (solid_isWordChar .none).blank c hc⟩

section Passing

variable {keyword : String} {f : List Char → List (List Char)} {s : List Char}

private theorem PassesWords.blanks (h : PassesWords keyword f) {v : List Char}
    (hv : isBlankText v = true) (s : List Char) : f (v ++ s) = f s := by
  induction v with
  | nil => rfl
  | cons c v ih =>
    obtain ⟨hc, hv⟩ : isBlank c = true ∧ isBlankText v = true := by simpa [isBlankText] using hv
    rw [List.cons_append, h.mark _ (isNameChar_of_isBlank hc) ((solid_isWordChar .none).blank c hc),
      ih hv]

/-- Another keyword is passed over. -/
theorem PassesWords.spelling (h : PassesWords keyword f) {other : String}
    (hother : (∀ k ∈ other.toList, k.toNat < 128 ∧ isNameChar k = true) ∧ other.toList ≠ [])
    (hne : sameText other.toList keyword.toList = false) (w : Spelling other)
    (hs : BeginsNoWord s) : f (w.val ++ s) = f s := by
  have hclass : ∀ c ∈ w.val, decide (c.toNat < 128 ∧ isNameChar c = true) = true :=
    forall_mem_of_sameText (by decide) (fun k hk => decide_eq_true (hother.1 k hk)) w.property
  apply h.word _ (fun c hc => of_decide_eq_true (hclass c hc)) _ hs
  · intro hnil
    have hsame := w.property
    rw [hnil] at hsame
    exact hother.2 (by simpa [sameText, lowerAscii] using hsame)
  · rw [sameText_congr w.property, hne]

/-- Parts that are each passed over are passed over together. -/
theorem passes_flatMap {α : Type} {g : α → List Char}
    (hg : ∀ x u, BeginsNoWord u → BeginsNoWord (g x ++ u) ∧ f (g x ++ u) = f u) (l : List α)
    (hs : BeginsNoWord s) : BeginsNoWord (l.flatMap g ++ s) ∧ f (l.flatMap g ++ s) = f s := by
  induction l with
  | nil => exact ⟨hs, rfl⟩
  | cons x l ih =>
    obtain ⟨hno, hpassed⟩ := hg x (l.flatMap g ++ s) ih.1
    rw [List.flatMap_cons, List.append_assoc]
    exact ⟨hno, hpassed.trans ih.2⟩

variable (hk : keyword ∈ introducers)

include hk

private theorem PassesWords.identifier (h : PassesWords keyword f) (i : Identifier)
    (hs : BeginsNoWord s) : f (i.text ++ s) = f s := by
  obtain ⟨c, w, hw, -⟩ := i.exists_cons
  apply h.word (by rw [hw]; exact List.cons_ne_nil c w) _ _ hs
  · exact fun c hc => ⟨isAscii_of_isSimpleChar (i.isSimpleChar_of_mem hc), i.isNameChar_of_mem hc⟩
  · exact i.free_of_mem_listStops ((by decide : ∀ k ∈ introducers, k ∈ listStops) keyword hk)

private theorem PassesWords.dotted (h : PassesWords keyword f) (n : DottedName)
    (hs : BeginsNoWord s) : f (n.text ++ s) = f s := by
  obtain ⟨hno, hpassed⟩ := passes_flatMap (f := f) (g := fun i : Identifier => '.' :: i.text)
    (fun i u hu => ⟨beginsNoWord_cons (by decide) _, by
      rw [List.cons_append, h.mark _ (by decide) (by decide), h.identifier hk i hu]⟩) n.more hs
  rw [DottedName.text, List.append_assoc, h.identifier hk n.first hno, hpassed]

private theorem PassesWords.columns (h : PassesWords keyword f) (cols : Columns)
    (hs : BeginsNoWord s) : f (cols.text ++ s) = f s := by
  have hcolumn : ∀ (column : Blanks × Blanks × Identifier) (u : List Char), BeginsNoWord u →
      BeginsNoWord (nextColumn column ++ u) ∧ f (nextColumn column ++ u) = f u := by
    rintro ⟨before, after, i⟩ u hu
    simp only [nextColumn, List.append_assoc, List.cons_append]
    refine ⟨beginsNoWord_blanks before.property (beginsNoWord_cons (by decide) _), ?_⟩
    rw [h.blanks before.property, h.mark _ (by decide) (by decide), h.blanks after.property,
      h.identifier hk i hu]
  obtain ⟨hno, hpassed⟩ := passes_flatMap hcolumn cols.more hs
  rw [Columns.text, List.append_assoc, h.identifier hk cols.first hno, hpassed]

private theorem PassesWords.label (h : PassesWords keyword f) (l : Label) (hs : BeginsNoWord s) :
    f (l.text ++ s) = f s := by
  cases l with
  | none => rfl
  | bare gap name =>
    rw [Label.text, List.append_assoc, h.blanks gap.property.1, h.identifier hk name hs]
  | named before asWord after name =>
    have hne : ∀ k ∈ introducers, sameText "AS".toList k.toList = false := by decide
    rw [Label.text, List.append_assoc, List.append_assoc, List.append_assoc,
      h.blanks before.property.1, h.spelling (by decide) (hne keyword hk) asWord
        (after.beginsNoWord _), h.blanks after.property.1, h.identifier hk name hs]

end Passing

/-! ### Scans from `FROM` to `FROM` -/

mutual

/-- What follows each `FROM` of a statement and its gap, with `z` behind the statement. -/
def Select.heads : Select → (z : List Char) → List (List Char)
  | .mk _ _ _ _ _ _ first more, z =>
    (first.text ++ (more.text ++ z)) :: (first.heads (more.text ++ z) ++ more.heads z)

/-- What follows each `FROM` in a source and its gap, with `z` behind the source. -/
def Source.heads : Source → (z : List Char) → List (List Char)
  | .table _ _, _ => []
  | .nested _ query after beforeName name, z =>
    query.heads (after.val ++ ')' :: (beforeName.val ++ (name.text ++ z)))

/-- What follows each `FROM` in several sources and its gap, with `z` behind them. -/
def Sources.heads : Sources → (z : List Char) → List (List Char)
  | .nil, _ => []
  | .cons _ _ source more, z => source.heads (more.text ++ z) ++ more.heads z

end

/-- A scan that passes over all words but one keyword and takes something from what follows a
`FROM` and a gap. -/
structure TakesHeads (keyword : String) (f g : List Char → List (List Char)) : Prop where
  known : keyword ∈ introducers
  passes : PassesWords keyword f
  head : ∀ (w : Spelling "FROM") (gap : Gap) (x : Source) {z : List Char}, EndsSource z →
    f (w.val ++ (gap.val ++ (x.text ++ z))) = g (x.text ++ z) ++ f (x.text ++ z)

section Heads

variable {keyword : String} {f g : List Char → List (List Char)}

mutual

/-- A scan takes from a statement what it takes from the text behind each `FROM`. -/
theorem Select.scan (h : TakesHeads keyword f g) : (q : Select) → {z : List Char} → EndsSource z →
    f (q.text ++ z) = (q.heads z).flatMap g ++ f z
  | .mk selectWord beforeColumns columns beforeFrom fromWord afterFrom first more, z, hz => by
    have hselect : ∀ k ∈ introducers, sameText "SELECT".toList k.toList = false := by decide
    have hmore := more.endsSource hz
    simp only [Select.text, List.append_assoc]
    rw [h.passes.spelling (by decide) (hselect keyword h.known) selectWord
        (beforeColumns.beginsNoWord _), h.passes.blanks beforeColumns.property.1,
      h.passes.columns h.known columns (beforeFrom.beginsNoWord _),
      h.passes.blanks beforeFrom.property.1, h.head fromWord afterFrom first hmore,
      first.scan h hmore, more.scan h hz, Select.heads, List.flatMap_cons, List.flatMap_append]
    simp only [List.append_assoc]

/-- The heads of a source are taken one by one, and then what follows the source. -/
theorem Source.scan (h : TakesHeads keyword f g) : (x : Source) → {z : List Char} → EndsSource z →
    f (x.text ++ z) = (x.heads z).flatMap g ++ f z
  | .table name label, z, hz => by
    rw [Source.text, List.append_assoc,
      h.passes.dotted h.known name (label.beginsNoWord hz.beginsNoWord),
      h.passes.label h.known label hz.beginsNoWord]
    rfl
  | .nested before query after beforeName name, z, hz => by
    have hquery := query.scan h
      (endsSelect_closing after (beforeName.val ++ (name.text ++ z))).endsSource
    have htext : (Source.nested before query after beforeName name).text ++ z =
        '(' :: (before.val ++ (query.text ++
          (after.val ++ ')' :: (beforeName.val ++ (name.text ++ z))))) := by
      simp [Source.text]
    rw [htext, h.passes.mark _ (by decide) (by decide), h.passes.blanks before.property, hquery,
      h.passes.blanks after.property, h.passes.mark _ (by decide) (by decide),
      h.passes.blanks beforeName.property, h.passes.identifier h.known name hz.beginsNoWord,
      Source.heads]

/-- The heads of further sources are taken one by one, and then what follows them. -/
theorem Sources.scan (h : TakesHeads keyword f g) : (xs : Sources) → {z : List Char} →
    EndsSource z → f (xs.text ++ z) = (xs.heads z).flatMap g ++ f z
  | .nil, z, _ => rfl
  | .cons before after source more, z, hz => by
    have hmore := more.endsSource hz
    have htext : (Sources.cons before after source more).text ++ z =
        before.val ++ ',' :: (after.val ++ (source.text ++ (more.text ++ z))) := by
      simp [Sources.text]
    rw [htext, h.passes.blanks before.property, h.passes.mark _ (by decide) (by decide),
      h.passes.blanks after.property, source.scan h hmore, more.scan h hz, Sources.heads,
      List.flatMap_append, List.append_assoc]

end

end Heads

/-! ### What a `FROM` leads to -/

private theorem Source.exists_cons (x : Source) : ∃ c w, x.text = c :: w ∧ isBlank c = false := by
  cases x with
  | table name label =>
    obtain ⟨c, w, hw, hc⟩ := name.exists_cons
    refine ⟨c, _, by rw [Source.text, hw, List.cons_append], ?_⟩
    rw [Bool.eq_false_iff]
    intro hblank
    rw [isNameChar_of_isBlank hblank] at hc
    exact Bool.false_ne_true hc
  | nested before query after beforeName name => exact ⟨'(', _, rfl, by decide⟩

private theorem Source.trimStart_append (x : Source) (s : List Char) :
    trimStart (x.text ++ s) = x.text ++ s := by
  obtain ⟨c, w, hw, hc⟩ := x.exists_cons
  rw [hw]
  exact List.dropWhile_cons_of_neg (by simp [hc])

/-- What follows the name of a source, a label or not, does not make the name a function. -/
theorem Label.head?_trimStart (l : Label) {z : List Char} (hz : EndsSource z) :
    (trimStart (l.text ++ z)).head? ≠ some '(' := by
  have hname : ∀ {v w s : List Char}, isBlankText v = true → w ≠ [] →
      (∀ c ∈ w, isNameChar c = true) → (trimStart (v ++ (w ++ s))).head? ≠ some '(' := by
    intro v w s hv hne hw
    obtain ⟨c, w, rfl⟩ := List.exists_cons_of_ne_nil hne
    have hc := hw c (List.mem_cons_self ..)
    have hblank : ¬ isBlank c = true := by
      intro h
      rw [isNameChar_of_isBlank h] at hc
      exact Bool.false_ne_true hc
    rw [Text.trimStart_append hv, List.cons_append, trimStart, List.dropWhile_cons_of_neg hblank,
      List.head?_cons]
    intro h
    rw [Option.some.inj h] at hc
    exact absurd hc (by decide)
  cases l with
  | none =>
    intro h
    rcases hz '(' h with h | h
    · exact absurd h (by decide)
    · exact absurd h (by decide)
  | bare gap name =>
    obtain ⟨c, w, hw, -⟩ := name.exists_cons
    rw [Label.text, List.append_assoc]
    exact hname gap.property.1 (by rw [hw]; exact List.cons_ne_nil c w)
      fun _ => name.isNameChar_of_mem
  | named before asWord after name =>
    rw [Label.text, List.append_assoc, List.append_assoc]
    apply hname before.property.1 _ (asWord.isNameChar_of_mem (by decide))
    intro hnil
    have hsame := asWord.property
    rw [hnil] at hsame
    exact absurd hsame (by decide)

private theorem takesHeads_listTexts : TakesHeads "FROM" (listTexts false) fun t => [t] where
  known := by decide
  passes := passesWords_listTexts
  head w gap x z hz := by
    have hword : w.val ≠ [] := by
      intro hnil
      have hsame := w.property
      rw [hnil] at hsame
      exact absurd hsame (by decide)
    rw [listTexts_word hword (w.isNameChar_of_mem (by decide)) (gap.startsInName _), w.property,
      gap.startsBlank, trimStart_append gap.property.1, x.trimStart_append,
      listTexts_blanks gap.property.1]
    rfl

/-- The characters of a table name that a text begins with. -/
def headName (t : List Char) : List (List Char) :=
  if t.head?.any isTableChar then [t.takeWhile isTableChar] else []

/-- A source that is a table begins with its name. -/
theorem Source.headName_append (x : Source) {z : List Char} (hz : EndsSource z) :
    headName (x.text ++ z) = x.own := by
  cases x with
  | table name label =>
    obtain ⟨c, w, hw, -⟩ := name.exists_cons
    have hrest := label.head?_any (solid_isTableChar .none).blank
      (hz.head?_any (solid_isTableChar .none).blank (by decide))
    have hhead : (name.text ++ (label.text ++ z)).head?.any isTableChar = true := by
      have hc := name.isTableChar_of_mem c (by simp [hw])
      rw [hw]
      exact hc
    rw [Source.text, List.append_assoc, headName, if_pos hhead,
      (span_of_head? name.isTableChar_of_mem hrest).1, Source.own]
  | nested before query after beforeName name => rfl

private theorem takesHeads_from : TakesHeads "FROM" (namesAfter "FROM") headName where
  known := by decide
  passes := passesWords_namesAfter (by decide)
  head w gap x z hz := by
    have hknown : "FROM" ∈ introducers := by decide
    have hpasses := passesWords_namesAfter hknown
    rw [x.headName_append hz]
    cases x with
    | table name label =>
      have hrest := label.head?_any (solid_isTableChar .none).blank
        (hz.head?_any (solid_isTableChar .none).blank (by decide))
      rw [Source.text, List.append_assoc, namesAfter_name hknown w.property gap.property.1
          gap.property.2 name.isTableChar_of_mem name.ne_nil hrest (label.head?_trimStart hz),
        hpasses.dotted hknown name (label.beginsNoWord hz.beginsNoWord)]
      rfl
    | nested before query after beforeName name =>
      rw [Source.text, List.cons_append,
        namesAfter_opening hknown w.property gap.property.1 gap.property.2,
        namesAfter_mark hknown (by decide)]
      rfl

private theorem takesHeads_join : TakesHeads "JOIN" (namesAfter "JOIN") fun _ => [] where
  known := by decide
  passes := passesWords_namesAfter (by decide)
  head w gap x z hz := by
    have hknown : "JOIN" ∈ introducers := by decide
    have hpasses := passesWords_namesAfter hknown
    rw [hpasses.spelling (by decide) (by decide) w (gap.beginsNoWord _),
      hpasses.blanks gap.property.1]
    rfl

/-! ### The tables -/

/-- The tables that are found behind a `FROM` and its gap. -/
def tablesBehind (t : List Char) : List (List Char) :=
  (headName t).filterMap tableName? ++ (listItems t).filterMap partName?

/-- The tables of a statement are found behind the `FROM`s in it. -/
theorem Select.mem_tables (q : Select) (name : List Char) :
    name ∈ tables q.text [] ↔ ∃ t ∈ q.heads [], name ∈ tablesBehind t := by
  have hend : EndsSource [] := by
    intro c hc
    exact absurd hc (by simp [trimStart])
  have hlists := q.scan takesHeads_listTexts hend
  have hfrom := q.scan takesHeads_from hend
  have hjoin := q.scan takesHeads_join hend
  rw [List.append_nil] at hlists hfrom hjoin
  have hnone : ∀ keyword, namesAfter keyword [] = [] := fun _ => by simp [namesAfter, occurrences]
  rw [hnone, List.append_nil] at hfrom hjoin
  have htexts : listTexts false q.text = q.heads [] := by
    rw [hlists, List.flatMap_singleton', listTexts, List.append_nil]
  have hnothing : (q.heads []).flatMap (fun _ => ([] : List (List Char))) = [] := by simp
  rw [mem_tables_by_list, hfrom, hjoin, hnothing, List.append_nil, itemsByList, htexts]
  simp only [List.not_mem_nil, not_false_eq_true, true_and, List.filterMap_append,
    List.filterMap_filterMap, List.filterMap_flatMap, List.mem_append, List.mem_flatMap,
    tablesBehind]
  constructor
  · rintro (⟨t, ht, hname⟩ | ⟨t, ht, hname⟩)
    · exact ⟨t, ht, .inl hname⟩
    · exact ⟨t, ht, .inr hname⟩
  · rintro ⟨t, ht, hname | hname⟩
    · exact .inl ⟨t, ht, hname⟩
    · exact .inr ⟨t, ht, hname⟩

/-- Behind a `FROM` the tables are found that the sources are themselves: the first one by its
place, and all of them as items where there are several. -/
theorem mem_tablesBehind (x : Source) (xs : Sources) {z : List Char} (hz : EndsSelect z)
    (name : List Char) :
    name ∈ tablesBehind (x.text ++ (xs.text ++ z)) ↔
      name ∈ x.own.map lowerAscii ∨ name ∈ xs.own.map lowerAscii := by
  obtain ⟨last, parts, hparts, hblank, hnames, hnil⟩ := xs.listParts_append hz
  have hend := xs.endsSource hz.endsSource
  have hfirst : (headName (x.text ++ (xs.text ++ z))).filterMap tableName? =
      x.own.map lowerAscii := by
    rw [x.headName_append hend]
    cases x with
    | table name label =>
      rw [Source.own, List.filterMap_cons_some name.tableName?_text]
      rfl
    | nested => rfl
  have hitems :
      listItems (x.text ++ (xs.text ++ z)) = severalParts ((x.text ++ last) :: parts) := by
    rw [listItems_eq, x.listParts_append hend, hparts]
    rfl
  rw [tablesBehind, hfirst, hitems, List.mem_append]
  cases parts with
  | nil =>
    rw [hnil rfl]
    simp [severalParts, Sources.own]
  | cons part parts =>
    have hall : severalParts ((x.text ++ last) :: part :: parts) =
        (x.text ++ last) :: part :: parts :=
      if_pos (by simp)
    have hown : name ∈ (partName? (x.text ++ last)).toList ↔ name ∈ x.own.map lowerAscii := by
      rw [← x.partName?_append (v := []) rfl hblank, List.nil_append]
    have hcons : ∀ l : List (List Char), name ∈ ((x.text ++ last) :: l).filterMap partName? ↔
        name ∈ (partName? (x.text ++ last)).toList ∨ name ∈ l.filterMap partName? := by
      intro l
      cases hpart : partName? (x.text ++ last) with
      | none => simp [List.filterMap_cons_none hpart]
      | some n => simp [List.filterMap_cons_some hpart]
    rw [hall, hcons, hown, hnames, ← or_assoc, or_self]

mutual

private theorem Select.mem_heads (name : List Char) :
    (q : Select) → {z : List Char} → EndsSelect z →
    ((∃ t ∈ q.heads z, name ∈ tablesBehind t) ↔ name ∈ q.names.map lowerAscii)
  | .mk selectWord beforeColumns columns beforeFrom fromWord afterFrom first more, z, hz => by
    have hfirst := first.mem_heads name (more.endsSource hz.endsSource)
    have hmore := more.mem_heads name hz.endsSource
    have hbehind := mem_tablesBehind first more hz name
    rw [Select.heads, Select.names, List.map_append, List.mem_append, ← hfirst, ← hmore]
    simp only [List.mem_cons, List.mem_append, or_and_right, exists_or, exists_eq_left, hbehind]
    exact or_or_or_comm

/-- The tables that a source is or that are behind the `FROM`s in it are the names in it. -/
theorem Source.mem_heads (name : List Char) : (x : Source) → {z : List Char} → EndsSource z →
    ((name ∈ x.own.map lowerAscii ∨ ∃ t ∈ x.heads z, name ∈ tablesBehind t) ↔
      name ∈ x.names.map lowerAscii)
  | .table _ _, _, _ => by simp [Source.own, Source.heads, Source.names]
  | .nested _ query after beforeName i, z, _ => by
    have hquery := query.mem_heads name
      (endsSelect_closing after (beforeName.val ++ (i.text ++ z)))
    simp [Source.own, Source.heads, Source.names, hquery]

/-- The tables of further sources are the names in them. -/
theorem Sources.mem_heads (name : List Char) : (xs : Sources) → {z : List Char} → EndsSource z →
    ((name ∈ xs.own.map lowerAscii ∨ ∃ t ∈ xs.heads z, name ∈ tablesBehind t) ↔
      name ∈ xs.names.map lowerAscii)
  | .nil, _, _ => by simp [Sources.own, Sources.heads, Sources.names]
  | .cons _ _ source more, z, hz => by
    have hsource := source.mem_heads name (more.endsSource hz)
    have hmore := more.mem_heads name hz
    rw [Sources.own, Sources.heads, Sources.names, List.map_append, List.map_append,
      List.mem_append, List.mem_append, ← hsource, ← hmore]
    simp only [List.mem_append, or_and_right, exists_or]
    exact or_or_or_comm

end

/-- The tables of a statement with nested lists are the names that stand as sources in it, at any
depth, in lower case: none is lost and none is invented. -/
theorem mem_tables_of_nested_lists (q : Select) (name : List Char) :
    name ∈ tables q.text [] ↔ ∃ n ∈ q.names, lowerAscii n = name := by
  have hend : EndsSelect [] := by
    intro c hc
    exact absurd hc (by simp [trimStart])
  rw [q.mem_tables, q.mem_heads name hend, List.mem_map]

example : ∃ q : Select, q.text = "SELECT a FROM (select b FROM t, S.u) s, V v".toList ∧
    q.names = ["t".toList, "S.u".toList, "V".toList] := by
  let gap : Gap := ⟨[' '], by decide⟩
  let blank : Blanks := ⟨[' '], by decide⟩
  let none : Blanks := ⟨[], by decide⟩
  let identifier (c : Char) (h : c ∈ "abstSuVv".toList) : Identifier :=
    { text := [c]
      letter := by revert c; decide
      plain := by revert c; decide
      free := by revert c; decide +kernel }
  let inner : Select := .mk ⟨"select".toList, by decide⟩ gap ⟨identifier 'b' (by decide), []⟩ gap
    ⟨"FROM".toList, by decide⟩ gap (.table ⟨identifier 't' (by decide), []⟩ .none)
    (.cons none blank
      (.table ⟨identifier 'S' (by decide), [identifier 'u' (by decide)]⟩ .none) .nil)
  let outer : Select := .mk ⟨"SELECT".toList, by decide⟩ gap ⟨identifier 'a' (by decide), []⟩ gap
    ⟨"FROM".toList, by decide⟩ gap (.nested none inner none blank (identifier 's' (by decide)))
    (.cons none blank
      (.table ⟨identifier 'V' (by decide), []⟩ (.bare gap (identifier 'v' (by decide)))) .nil)
  exact ⟨outer, rfl, rfl⟩

end SqlReview.Query

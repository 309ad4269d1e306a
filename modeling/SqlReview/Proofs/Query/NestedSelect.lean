import SqlReview.Proofs.Query.ListParts
import SqlReview.Proofs.Query.NamesAfter

/-!
# Statements with nested lists

Statements `SELECT columns FROM source, source, ...` where a source is the name of a table, with an
alias or without, or again such a statement in parentheses. Here are their texts and the names in
them, and what the parts of a text are as a list of tables: each source belongs to one part, which
begins with the name or with a parenthesis.
-/

namespace SqlReview.Query

open SqlReview.Text SqlReview.Lexical SqlReview.Search

/-! ### Statements -/

/-- Blanks, at least one. -/
def Gap : Type :=
  { w : List Char // isBlankText w = true ∧ w ≠ [] }

/-- A plain identifier: a letter of ASCII and then letters, digits and underscores, and none of the
keywords that end a list or a name. -/
structure Identifier where
  text : List Char
  letter : text.head?.any Char.isAlpha = true
  plain : ∀ c ∈ text, (c.isAlphanum || c == '_') = true
  free : ∀ k ∈ "AS" :: "FROM" :: tableKeywords, sameText text k.toList = false

/-- The name of a table: identifiers with periods between them. -/
structure DottedName where
  first : Identifier
  more : List Identifier

/-- The text of a name. -/
def DottedName.text (n : DottedName) : List Char :=
  n.first.text ++ n.more.flatMap fun i => '.' :: i.text

/-- The columns of a statement, with the blanks before and after each comma. -/
structure Columns where
  first : Identifier
  more : List (Blanks × Blanks × Identifier)

/-- The text of a column behind the first one, from the blanks before its comma on. -/
def nextColumn : Blanks × Blanks × Identifier → List Char
  | (before, after, i) => before.val ++ ',' :: (after.val ++ i.text)

/-- The text of a list of columns. -/
def Columns.text (cols : Columns) : List Char :=
  cols.first.text ++ cols.more.flatMap nextColumn

/-- What may stand behind the name of a table: an alias, possibly with `AS`. -/
inductive Label where
  | none
  | bare (gap : Gap) (name : Identifier)
  | named (before : Gap) (asWord : Spelling "AS") (after : Gap) (name : Identifier)

/-- The text of a label, the gap before it included. -/
def Label.text : Label → List Char
  | .none => []
  | .bare gap name => gap.val ++ name.text
  | .named before asWord after name => before.val ++ (asWord.val ++ (after.val ++ name.text))

mutual

/-- A statement with a list of sources. -/
inductive Select where
  | mk (selectWord : Spelling "SELECT") (beforeColumns : Gap) (columns : Columns)
      (beforeFrom : Gap) (fromWord : Spelling "FROM") (afterFrom : Gap) (first : Source)
      (more : Sources)

/-- A source: a table, or a statement in parentheses with an alias. -/
inductive Source where
  | table (name : DottedName) (label : Label)
  | nested (before : Blanks) (query : Select) (after beforeName : Blanks) (name : Identifier)

/-- The sources behind the first one, with the blanks before and after each comma. -/
inductive Sources where
  | nil
  | cons (before after : Blanks) (source : Source) (more : Sources)

end

mutual

/-- The text of a statement. -/
def Select.text : Select → List Char
  | .mk selectWord beforeColumns columns beforeFrom fromWord afterFrom first more =>
    selectWord.val ++ (beforeColumns.val ++ (columns.text ++ (beforeFrom.val ++
      (fromWord.val ++ (afterFrom.val ++ (first.text ++ more.text))))))

/-- The text of a source. -/
def Source.text : Source → List Char
  | .table name label => name.text ++ label.text
  | .nested before query after beforeName name =>
    '(' :: (before.val ++ (query.text ++ (after.val ++ ')' :: (beforeName.val ++ name.text))))

/-- The text of the sources behind the first one. -/
def Sources.text : Sources → List Char
  | .nil => []
  | .cons before after source more =>
    before.val ++ ',' :: (after.val ++ (source.text ++ more.text))

end

mutual

/-- The names that stand as sources in a statement, at any depth. -/
def Select.names : Select → List (List Char)
  | .mk _ _ _ _ _ _ first more => first.names ++ more.names

/-- The names that stand as sources in a source or are the source itself. -/
def Source.names : Source → List (List Char)
  | .table name _ => [name.text]
  | .nested _ query _ _ _ => query.names

/-- The names that stand as sources in several sources. -/
def Sources.names : Sources → List (List Char)
  | .nil => []
  | .cons _ _ source more => source.names ++ more.names

end

/-! ### Identifiers -/

namespace Identifier

variable (i : Identifier)

/-- An identifier is made of simple characters. -/
theorem isSimpleChar_of_mem {c : Char} (hc : c ∈ i.text) : isSimpleChar c = true := by
  rw [isSimpleChar, i.plain c hc, Bool.true_or]

/-- An identifier is made of name characters. -/
theorem isNameChar_of_mem {c : Char} (hc : c ∈ i.text) : isNameChar c = true := by
  apply isNameChar_of_isSimpleChar (i.isSimpleChar_of_mem hc)
  rintro rfl
  exact absurd (i.plain '$' hc) (by decide)

/-- An identifier begins with a name character. -/
theorem exists_cons : ∃ c w, i.text = c :: w ∧ isNameChar c = true := by
  cases htext : i.text with
  | nil =>
    have hletter := i.letter
    rw [htext] at hletter
    exact absurd hletter (by decide)
  | cons c w => exact ⟨c, w, rfl, i.isNameChar_of_mem (by simp [htext])⟩

/-- An identifier is no keyword that ends a list. -/
theorem free_of_mem_listStops {k : String} (hk : k ∈ listStops) :
    sameText i.text k.toList = false :=
  i.free k (List.mem_cons_of_mem "AS" hk)

end Identifier

/-! ### What follows a source -/

/-- Whether nothing but a comma or a closing parenthesis follows the blanks that a text begins
with. -/
def EndsSource (z : List Char) : Prop :=
  ∀ c ∈ (trimStart z).head?, c = ',' ∨ c = ')'

/-- Whether nothing but a closing parenthesis follows the blanks that a text begins with. -/
def EndsSelect (z : List Char) : Prop :=
  ∀ c ∈ (trimStart z).head?, c = ')'

/-- Where a statement ends a source may end. -/
theorem EndsSelect.endsSource {z : List Char} (h : EndsSelect z) : EndsSource z :=
  fun c hc => .inr (h c hc)

/-- A statement ends before blanks and a closing parenthesis. -/
theorem endsSelect_closing (v : Blanks) (s : List Char) : EndsSelect (v.val ++ ')' :: s) := by
  intro c hc
  rw [trimStart_append v.property] at hc
  obtain rfl : ')' = c := Option.some.inj hc
  rfl

/-- A source may end before further sources. -/
theorem Sources.endsSource (xs : Sources) {z : List Char} (hz : EndsSource z) :
    EndsSource (xs.text ++ z) := by
  cases xs with
  | nil => exact hz
  | cons before after source more =>
    intro c hc
    rw [Sources.text, List.append_assoc, trimStart_append before.property] at hc
    obtain rfl : ',' = c := Option.some.inj hc
    exact .inl rfl

/-- What follows a source begins with no character of a name. -/
theorem EndsSource.head?_any {z : List Char} (h : EndsSource z) {cls : Char → Bool}
    (hblank : ∀ c, isBlank c = true → cls c = false)
    (hmarks : cls ',' = false ∧ cls ')' = false) : z.head?.any cls = false := by
  cases z with
  | nil => rfl
  | cons c s =>
    by_cases hc : isBlank c = true
    · exact hblank c hc
    · have htrim : trimStart (c :: s) = c :: s := List.dropWhile_cons_of_neg hc
      rcases h c (by rw [htrim]; rfl) with rfl | rfl
      · exact hmarks.1
      · exact hmarks.2

/-- No name goes on where a source ends. -/
theorem EndsSource.startsInName {z : List Char} (h : EndsSource z) :
    Text.startsInName z = false :=
  h.head?_any (fun _ => isNameChar_of_isBlank) (by decide)

/-- What a gap begins with is blank. -/
theorem Gap.head?_any (gap : Gap) {cls : Char → Bool}
    (hblank : ∀ c, isBlank c = true → cls c = false) (s : List Char) :
    (gap.val ++ s).head?.any cls = false := by
  obtain ⟨hgap, hne⟩ := gap.property
  obtain ⟨c, v, hv⟩ := List.exists_cons_of_ne_nil hne
  rw [hv] at hgap ⊢
  exact hblank c (List.all_eq_true.mp hgap c (List.mem_cons_self ..))

/-- A gap does not begin with a name. -/
theorem Gap.startsInName (gap : Gap) (s : List Char) : Text.startsInName (gap.val ++ s) = false :=
  gap.head?_any (fun _ => isNameChar_of_isBlank) s

/-- A gap begins with a blank. -/
theorem Gap.startsBlank (gap : Gap) (s : List Char) : Text.startsBlank (gap.val ++ s) = true := by
  obtain ⟨hgap, hne⟩ := gap.property
  obtain ⟨c, v, hv⟩ := List.exists_cons_of_ne_nil hne
  rw [hv] at hgap ⊢
  exact List.all_eq_true.mp hgap c (List.mem_cons_self ..)

/-- A label begins with a gap, if there is one. -/
theorem Label.head?_any (l : Label) {cls : Char → Bool}
    (hblank : ∀ c, isBlank c = true → cls c = false) {s : List Char}
    (hs : s.head?.any cls = false) : (l.text ++ s).head?.any cls = false := by
  cases l with
  | none => exact hs
  | bare gap name =>
    rw [Label.text, List.append_assoc]
    exact gap.head?_any hblank _
  | named before asWord after name =>
    rw [Label.text, List.append_assoc]
    exact before.head?_any hblank _

/-- A label does not begin with a name, if what follows it does not. -/
theorem Label.startsInName (l : Label) {s : List Char} (hs : Text.startsInName s = false) :
    Text.startsInName (l.text ++ s) = false :=
  l.head?_any (fun _ => isNameChar_of_isBlank) hs

/-! ### Parts of a statement -/

/-- A keyword in any case is made of name characters. -/
theorem Spelling.isNameChar_of_mem {keyword : String} (w : Spelling keyword)
    (hk : ∀ k ∈ keyword.toList, isNameChar k = true) : ∀ c ∈ w.val, isNameChar c = true :=
  isNameChar_of_sameText hk w.property

private theorem Identifier.listParts_append (i : Identifier) {s : List Char}
    (hs : startsInName s = false) :
    listParts 0 false (i.text ++ s) = prepend i.text (listParts 0 false s) :=
  listParts_word (fun _ => i.isNameChar_of_mem) (fun _ => i.free_of_mem_listStops) hs

private theorem Gap.listParts_append (gap : Gap) (s : List Char) :
    listParts 0 false (gap.val ++ s) = prepend gap.val (listParts 0 false s) :=
  listParts_blanks gap.property.1 s

private theorem DottedName.listParts_append (n : DottedName) {s : List Char}
    (hs : startsInName s = false) :
    listParts 0 false (n.text ++ s) = prepend n.text (listParts 0 false s) := by
  have hmore : ∀ more : List Identifier,
      startsInName ((more.flatMap fun i => '.' :: i.text) ++ s) = false ∧
        listParts 0 false ((more.flatMap fun i => '.' :: i.text) ++ s) =
          prepend (more.flatMap fun i => '.' :: i.text) (listParts 0 false s) := by
    intro more
    induction more with
    | nil => exact ⟨hs, (prepend_nil (listParts_ne_nil 0 false s)).symm⟩
    | cons i more ih =>
      obtain ⟨hname, hparts⟩ := ih
      refine ⟨(by decide : isNameChar '.' = false), ?_⟩
      have hperiod : isNameChar '.' = false := by decide
      rw [List.flatMap_cons, List.append_assoc, List.cons_append,
        listParts_plain_cons (by decide) rfl, hperiod, i.listParts_append hname, hparts,
        prepend_prepend, prepend_prepend]
      rfl
  obtain ⟨hname, hparts⟩ := hmore n.more
  rw [DottedName.text, List.append_assoc, n.first.listParts_append hname, hparts, prepend_prepend]

private theorem Label.listParts_append (l : Label) {s : List Char}
    (hs : Text.startsInName s = false) :
    listParts 0 false (l.text ++ s) = prepend l.text (listParts 0 false s) := by
  cases l with
  | none => exact (prepend_nil (listParts_ne_nil 0 false s)).symm
  | bare gap name =>
    rw [Label.text, List.append_assoc, gap.listParts_append, name.listParts_append hs,
      prepend_prepend]
  | named before asWord after name =>
    have hstops : ∀ k ∈ listStops, sameText asWord.val k.toList = false := by
      intro k hk
      rw [sameText_congr asWord.property]
      exact (by decide : ∀ k ∈ listStops, sameText "AS".toList k.toList = false) k hk
    rw [Label.text, List.append_assoc, List.append_assoc, List.append_assoc,
      before.listParts_append,
      listParts_word (asWord.isNameChar_of_mem (by decide)) hstops (after.startsInName _),
      after.listParts_append, name.listParts_append hs, prepend_prepend, prepend_prepend,
      prepend_prepend, List.append_assoc, List.append_assoc]

/-! ### Parentheses -/

/-- A text of characters of a class that holds no parenthesis. -/
theorem balanced_of_class {cls : Char → Bool} {w : List Char} (hw : ∀ c ∈ w, cls c = true)
    (hcls : cls '(' = false ∧ cls ')' = false) : Balanced w := by
  apply balanced_of_forall
  intro c hc
  have hmem := hw c hc
  constructor
  · rintro rfl
    rw [hcls.1] at hmem
    exact Bool.false_ne_true hmem
  · rintro rfl
    rw [hcls.2] at hmem
    exact Bool.false_ne_true hmem

private theorem balanced_blanks {v : List Char} (hv : isBlankText v = true) : Balanced v :=
  balanced_of_class (List.all_eq_true.mp hv) (by decide)

private theorem Spelling.balanced {keyword : String} (w : Spelling keyword)
    (hk : ∀ k ∈ keyword.toList, isNameChar k = true) : Balanced w.val :=
  balanced_of_class (w.isNameChar_of_mem hk) (by decide)

private theorem Identifier.balanced (i : Identifier) : Balanced i.text :=
  balanced_of_class (fun _ => i.isNameChar_of_mem) (by decide)

/-- One character that is no parenthesis may stand before a balanced text. -/
theorem Balanced.cons {c : Char} {x : List Char} (hx : Balanced x) (hc : c ≠ '(' ∧ c ≠ ')') :
    Balanced (c :: x) :=
  (balanced_of_forall (x := [c]) (by simpa using hc)).append hx

private theorem balanced_flatMap {α : Type} {f : α → List Char} (l : List α)
    (h : ∀ a, Balanced (f a)) : Balanced (l.flatMap f) := by
  induction l with
  | nil => exact balanced_nil
  | cons a l ih =>
    rw [List.flatMap_cons]
    exact (h a).append ih

private theorem DottedName.balanced (n : DottedName) : Balanced n.text :=
  n.first.balanced.append (balanced_flatMap _ fun i => i.balanced.cons (by decide))

private theorem balanced_nextColumn (column : Blanks × Blanks × Identifier) :
    Balanced (nextColumn column) := by
  obtain ⟨before, after, i⟩ := column
  exact (balanced_blanks before.property).append
    (((balanced_blanks after.property).append i.balanced).cons (by decide))

private theorem Columns.balanced (cols : Columns) : Balanced cols.text :=
  cols.first.balanced.append (balanced_flatMap _ balanced_nextColumn)

private theorem Label.balanced (l : Label) : Balanced l.text := by
  cases l with
  | none => exact balanced_nil
  | bare gap name => exact (balanced_blanks gap.property.1).append name.balanced
  | named before asWord after name =>
    exact (balanced_blanks before.property.1).append ((asWord.balanced (by decide)).append
      ((balanced_blanks after.property.1).append name.balanced))

mutual

private theorem Select.balanced : (q : Select) → Balanced q.text
  | .mk selectWord beforeColumns columns beforeFrom fromWord afterFrom first more => by
    rw [Select.text]
    apply (selectWord.balanced (by decide)).append
    apply (balanced_blanks beforeColumns.property.1).append
    apply columns.balanced.append
    apply (balanced_blanks beforeFrom.property.1).append
    apply (fromWord.balanced (by decide)).append
    apply (balanced_blanks afterFrom.property.1).append
    exact first.balanced.append more.balanced

/-- A source closes the parentheses that it opens. -/
theorem Source.balanced : (x : Source) → Balanced x.text
  | .table name label => by
    rw [Source.text]
    exact name.balanced.append label.balanced
  | .nested before query after beforeName name => by
    have hinside := ((balanced_blanks before.property).append
      (query.balanced.append (balanced_blanks after.property))).parens
    have hname := (balanced_blanks beforeName.property).append name.balanced
    have htext : (Source.nested before query after beforeName name).text =
        '(' :: (before.val ++ (query.text ++ after.val) ++ [')']) ++
          (beforeName.val ++ name.text) := by
      simp [Source.text]
    rw [htext]
    exact hinside.append hname

/-- Further sources close the parentheses that they open. -/
theorem Sources.balanced : (xs : Sources) → Balanced xs.text
  | .nil => balanced_nil
  | .cons before after source more => by
    rw [Sources.text]
    apply (balanced_blanks before.property).append
    apply Balanced.cons _ (by decide)
    exact (balanced_blanks after.property).append (source.balanced.append more.balanced)

end

/-! ### Sources as parts -/

/-- A source belongs to one part. -/
theorem Source.listParts_append (x : Source) {s : List Char} (hs : EndsSource s) :
    listParts 0 false (x.text ++ s) = prepend x.text (listParts 0 false s) := by
  cases x with
  | table name label =>
    rw [Source.text, List.append_assoc,
      name.listParts_append (label.startsInName hs.startsInName),
      label.listParts_append hs.startsInName, prepend_prepend]
  | nested before query after beforeName name =>
    have hinside := (balanced_blanks before.property).append
      (query.balanced.append (balanced_blanks after.property))
    have htext : (Source.nested before query after beforeName name).text ++ s =
        '(' :: ((before.val ++ (query.text ++ after.val)) ++
          ')' :: (beforeName.val ++ (name.text ++ s))) := by
      simp [Source.text]
    rw [htext, hinside.listParts_parens, listParts_blanks beforeName.property,
      name.listParts_append hs.startsInName, prepend_prepend, prepend_prepend]
    simp [Source.text]

/-- The name of a table, if a part begins with one. -/
def partName? (part : List Char) : Option (List Char) :=
  (firstWord? part).bind tableName?

private theorem firstWord?_append {v w s : List Char} (hv : isBlankText v = true)
    (hw : ∀ c ∈ w, (!isBlank c) = true) (hne : w ≠ []) (hs : s.head?.any (!isBlank ·) = false) :
    firstWord? (v ++ (w ++ s)) = some w := by
  have htrim : trimStart (w ++ s) = w ++ s := by
    obtain ⟨c, w, rfl⟩ := List.exists_cons_of_ne_nil hne
    exact List.dropWhile_cons_of_neg (by simpa using hw c (List.mem_cons_self ..))
  rw [firstWord?, trimStart_append hv, htrim, (span_of_head? hw hs).1]
  obtain ⟨c, w, rfl⟩ := List.exists_cons_of_ne_nil hne
  rfl

namespace DottedName

variable (n : DottedName)

private theorem simple_or_period {c : Char} (hc : c ∈ n.text) :
    isSimpleChar c = true ∨ c = '.' := by
  simp only [DottedName.text, List.mem_append, List.mem_flatMap, List.mem_cons] at hc
  rcases hc with hc | ⟨i, -, rfl | hc⟩
  · exact .inl (n.first.isSimpleChar_of_mem hc)
  · exact .inr rfl
  · exact .inl (i.isSimpleChar_of_mem hc)

/-- What holds of the simple characters and of the period holds of all characters of a name. -/
theorem forall_mem {p : Char → Prop} (hsimple : ∀ c, isSimpleChar c = true → p c)
    (hperiod : p '.') : ∀ c ∈ n.text, p c := by
  intro c hc
  rcases n.simple_or_period hc with h | rfl
  · exact hsimple c h
  · exact hperiod

/-- A table name is made of characters of table names. -/
theorem isTableChar_of_mem : ∀ c ∈ n.text, isTableChar c = true :=
  n.forall_mem (fun _ => isTableChar_of_isSimpleChar) (by decide)

/-- A name begins with a letter. -/
theorem exists_cons : ∃ c w, n.text = c :: w ∧ isNameChar c = true := by
  obtain ⟨c, w, hw, hc⟩ := n.first.exists_cons
  exact ⟨c, _, by rw [DottedName.text, hw, List.cons_append], hc⟩

/-- A table name is not empty. -/
theorem ne_nil : n.text ≠ [] := by
  obtain ⟨c, w, hw, -⟩ := n.exists_cons
  rw [hw]
  exact List.cons_ne_nil c w

/-- A name is no keyword: one identifier is none, and keywords have no periods. -/
theorem sameText_keyword {k : String} (hk : k ∈ tableKeywords) :
    sameText n.text k.toList = false := by
  cases hmore : n.more with
  | nil =>
    rw [DottedName.text, hmore, List.flatMap_nil, List.append_nil]
    exact n.first.free_of_mem_listStops (List.mem_cons_of_mem "FROM" hk)
  | cons i more =>
    rw [Bool.eq_false_iff]
    intro hsame
    have hperiod : '.' ∈ lowerAscii n.text := by
      refine List.mem_map.mpr ⟨'.', ?_, rfl⟩
      rw [DottedName.text, hmore, List.flatMap_cons]
      simp
    rw [sameText_iff.mp hsame] at hperiod
    exact (by decide +kernel : ∀ k ∈ tableKeywords, '.' ∉ lowerAscii k.toList) k hk hperiod

/-- A name names the table that it spells in lower case. -/
theorem tableName?_text : tableName? n.text = some (lowerAscii n.text) := by
  have hparen : n.text.contains '(' = false := by
    rw [Bool.eq_false_iff]
    intro h
    have hclass := n.isTableChar_of_mem '(' (List.contains_iff_mem.mp h)
    exact absurd hclass (by decide)
  have hfilter : n.text.filter (fun c => c != backtick && c != doubleQuote) = n.text := by
    apply List.filter_eq_self.mpr
    refine n.forall_mem (p := fun c => (c != backtick && c != doubleQuote) = true) ?_ (by decide)
    intro c hc
    obtain ⟨hbacktick, hdouble⟩ := beq_of_isQuote_eq_false (isQuote_of_isSimpleChar hc)
    rw [bne, bne, hbacktick, hdouble]
    rfl
  have hperiod : (n.text.head? == some '.') = false := by
    obtain ⟨c, w, hw, hc⟩ := n.exists_cons
    rw [hw, List.head?_cons, beq_eq_false_iff_ne]
    intro h
    rw [Option.some.inj h] at hc
    exact absurd hc (by decide)
  have hempty : n.text.isEmpty = false := by simpa using n.ne_nil
  have hkeyword : tableKeywords.any (sameText n.text ·.toList) = false := by
    rw [List.any_eq_false]
    intro k hk
    simp [n.sameText_keyword hk]
  have hlower : lower n.text = lowerAscii n.text :=
    lower_of_ascii (n.forall_mem (fun _ => isAscii_of_isSimpleChar) (by decide))
  simp only [tableName?, hparen, hfilter, hperiod, hempty, hkeyword, hlower]
  rfl

end DottedName

/-- The name that a source itself is, if it is a table. -/
def Source.own : Source → List (List Char)
  | .table name _ => [name.text]
  | .nested .. => []

/-- The names that the sources behind the first one are themselves. -/
def Sources.own : Sources → List (List Char)
  | .nil => []
  | .cons _ _ source more => source.own ++ more.own

/-- A part that holds a source names the table that the source is. -/
theorem Source.partName?_append (x : Source) {v s : List Char} (hv : isBlankText v = true)
    (hs : isBlankText s = true) :
    (partName? (v ++ (x.text ++ s))).toList = x.own.map lowerAscii := by
  cases x with
  | table name label =>
    have hblank : ∀ c, isBlank c = true → (!isBlank c) = false := by simp
    have hhead : s.head?.any (!isBlank ·) = false := by
      cases s with
      | nil => rfl
      | cons c s => exact hblank c (List.all_eq_true.mp hs c (List.mem_cons_self ..))
    have hsolid : ∀ c ∈ name.text, (!isBlank c) = true := by
      intro c hc
      rw [Bool.not_eq_true', Bool.eq_false_iff]
      intro h
      have hclass := name.isTableChar_of_mem c hc
      rw [(solid_isTableChar .none).blank c h] at hclass
      exact Bool.false_ne_true hclass
    rw [Source.text, List.append_assoc, partName?,
      firstWord?_append hv hsolid name.ne_nil (label.head?_any hblank hhead), Option.bind_some,
      name.tableName?_text]
    rfl
  | nested before query after beforeName name =>
    have hword : ∀ r, ∃ w, firstWord? (v ++ '(' :: r) = some ('(' :: w) := by
      intro r
      have hopen : ¬ isBlank '(' = true := by decide
      refine ⟨r.takeWhile (!isBlank ·), ?_⟩
      rw [firstWord?, trimStart_append hv, trimStart, List.dropWhile_cons_of_neg hopen,
        List.takeWhile_cons_of_pos (by decide)]
    rw [Source.text, List.cons_append, partName?]
    obtain ⟨w, hw⟩ := hword
      (before.val ++ (query.text ++ (after.val ++ ')' :: (beforeName.val ++ name.text))) ++ s)
    rw [hw]
    simp [tableName?, Source.own]

private theorem EndsSelect.listParts {z : List Char} (hz : EndsSelect z) :
    ∃ last, Query.listParts 0 false z = [last] ∧ isBlankText last = true := by
  obtain ⟨v, hv, hsplit⟩ := exists_trimStart z
  refine ⟨v, ?_, hv⟩
  have hrest : Query.listParts 0 false (trimStart z) = [[]] := by
    cases htrim : trimStart z with
    | nil => rfl
    | cons c s =>
      obtain rfl := hz c (by rw [htrim]; rfl)
      exact listParts_of_ends rfl
  rw [hsplit, listParts_blanks hv, hrest, prepend, List.append_nil]

/-- The parts of the sources behind the first one: the blanks before the first comma belong to the
part before them, and each other part holds a source. -/
theorem Sources.listParts_append : (xs : Sources) → {z : List Char} → EndsSelect z →
    ∃ last parts, listParts 0 false (xs.text ++ z) = last :: parts ∧ isBlankText last = true ∧
      parts.filterMap partName? = xs.own.map lowerAscii ∧
      (parts = [] → xs = .nil)
  | .nil, z, hz => by
    obtain ⟨last, hlast, hblank⟩ := hz.listParts
    exact ⟨last, [], hlast, hblank, rfl, fun _ => rfl⟩
  | .cons before after source more, z, hz => by
    obtain ⟨last, parts, hparts, hblank, hnames, -⟩ := more.listParts_append hz
    refine ⟨before.val, (after.val ++ source.text ++ last) :: parts, ?_, before.property, ?_,
      fun h => absurd h (List.cons_ne_nil _ _)⟩
    · rw [Sources.text, List.append_assoc, List.cons_append, List.append_assoc, List.append_assoc,
        listParts_blanks before.property, listParts_comma, listParts_blanks after.property,
        source.listParts_append (more.endsSource hz.endsSource), hparts, prepend_prepend]
      simp [prepend]
    · have hname := source.partName?_append after.property hblank
      rw [← List.append_assoc] at hname
      rw [Sources.own, List.map_append, ← hname, ← hnames]
      cases hpart : partName? (after.val ++ source.text ++ last) with
      | none => rw [List.filterMap_cons_none hpart]; rfl
      | some x => rw [List.filterMap_cons_some hpart]; rfl

end SqlReview.Query

import Mathlib.Data.List.Induction
import SqlReview.Proofs.Query.Closing
import SqlReview.Proofs.Query.MainQuery

/-!
# Well-formed prologues

A prologue as one writes it: `WITH`, then bindings with commas between them, each of which has a
name, possibly a list of columns, `AS` and a body. Both scans of a prologue read it as it is meant.
The names that it binds are the names of its bindings, and the main query is what follows it.
-/

namespace SqlReview.Query

open SqlReview.Text SqlReview.Lexical

/-! ### Whole words -/

variable {w s t : List Char}

/-- A text begins with a keyword when its first word is this keyword. -/
theorem startsWith_word {keyword : String} (hk : ∀ k ∈ keyword.toList, isNameChar k = true)
    (hw : ∀ c ∈ w, isNameChar c = true) (hs : startsInName s = false) :
    startsWith keyword (w ++ s) = sameText w keyword.toList := by
  rw [startsWith, afterKeyword?]
  generalize keyword.toList = ks at hk ⊢
  induction ks generalizing w with
  | nil =>
    cases w with
    | nil => simp [dropLetters?, hs, sameText]
    | cons c w =>
      have hc := hw c (List.mem_cons_self ..)
      simp [dropLetters?, startsInName, hc, sameText, lowerAscii]
  | cons k ks ih =>
    have hks := fun k' hk' => hk k' (List.mem_cons_of_mem k hk')
    cases w with
    | nil =>
      cases s with
      | nil => rfl
      | cons c s =>
        have hc : sameLetter k c = false := by
          rw [Bool.eq_false_iff]
          intro h
          have hname := hk k (List.mem_cons_self ..)
          rw [isNameChar_eq_of_sameLetter h] at hname
          simp only [startsInName, List.head?_cons, Option.any_some] at hs
          rw [hs] at hname
          exact Bool.false_ne_true hname
        simp [dropLetters?, hc, sameText, lowerAscii]
    | cons c w =>
      have htail := ih (fun d hd => hw d (List.mem_cons_of_mem c hd)) hks
      rw [List.cons_append, dropLetters?]
      split
      · next h =>
        rw [htail]
        simp only [sameLetter, beq_iff_eq] at h
        simp [sameText, lowerAscii, h]
      · next h =>
        simp only [sameLetter, beq_iff_eq] at h
        simp [sameText, lowerAscii, Ne.symm h]

private theorem startsWith_select (hw : ∀ c ∈ w, isNameChar c = true)
    (hs : startsInName s = false) : startsWith "SELECT" (w ++ s) = sameText w "SELECT".toList :=
  startsWith_word (by decide) hw hs

/-- Where no name begins, it does not matter whether one ends. -/
theorem selectFrom_inName (h : startsInName s = false) (d : Nat) (b : Bool) :
    selectFrom d none b s = selectFrom d none false s := by
  cases s with
  | nil => rfl
  | cons c s =>
    have hselect : startsWith "SELECT" (c :: s) = false :=
      startsWith_select (w := []) (by simp) h
    rw [selectFrom, selectFrom, hselect, Bool.and_false, Bool.and_false]

/-- A name is passed over from inside of it. -/
theorem selectFrom_nameChars (hw : ∀ c ∈ w, isNameChar c = true) (d : Nat) :
    selectFrom d none true (w ++ s) = selectFrom d none true s := by
  induction w with
  | nil => rfl
  | cons c w ih =>
    have hc := hw c (List.mem_cons_self ..)
    obtain ⟨hquote, hopen, hclose, -⟩ := ne_of_isNameChar hc
    rw [List.cons_append, selectFrom, hquote, hopen, hclose, hc]
    simp only [Bool.not_true, Bool.and_false, Bool.false_and, Bool.false_eq_true, if_false]
    exact ih fun e he => hw e (List.mem_cons_of_mem c he)

/-- A word that is no `SELECT` is passed over. -/
theorem selectFrom_word (hw : ∀ c ∈ w, isNameChar c = true)
    (hselect : sameText w "SELECT".toList = false) (hs : startsInName s = false) (d : Nat) :
    selectFrom d none false (w ++ s) = selectFrom d none false s := by
  cases w with
  | nil => rfl
  | cons c w =>
    have hc := hw c (List.mem_cons_self ..)
    obtain ⟨hquote, hopen, hclose, -⟩ := ne_of_isNameChar hc
    have hkey := startsWith_select hw hs
    rw [hselect, List.cons_append] at hkey
    rw [List.cons_append, selectFrom, hquote, hopen, hclose, hkey, hc, Bool.and_false]
    simp only [Bool.false_eq_true, if_false]
    rw [selectFrom_nameChars fun e he => hw e (List.mem_cons_of_mem c he),
      selectFrom_inName hs]

/-- Outside of parentheses enclosed text is passed over. -/
theorem Closes.selectFrom_parens (h : Closes 0 s) (b : Bool) :
    Query.selectFrom 0 none b ('(' :: (s ++ ')' :: t)) = Query.selectFrom 0 none false t := by
  rw [Query.selectFrom]
  exact h.selectFrom 0 _ t

/-- A text that begins with `SELECT` is its own main query. -/
theorem selectFrom_select (h : startsWith "SELECT" s = true) :
    selectFrom 0 none false s = some s := by
  obtain ⟨c, t, rfl, hc⟩ := exists_of_startsWith (k := 'S') (by decide) h
  have hname : isNameChar c = true := by
    rw [← isNameChar_eq_of_sameLetter hc]
    decide
  obtain ⟨hquote, hopen, hclose, -⟩ := ne_of_isNameChar hname
  rw [selectFrom, hquote, hopen, hclose, h]
  rfl

/-- A word is a keyword in any case when its letters are those of the keyword. -/
theorem sameText_congr {u v : List Char} (h : sameText w u = true) :
    sameText w v = sameText u v := by
  rw [sameText, sameText, sameText_iff.mp h]

/-- A keyword in any case is made of characters of a class that the keyword is made of. -/
theorem forall_mem_of_sameText {cls : Char → Bool} (hcls : IgnoresCase cls) {ks : List Char}
    (hk : ∀ k ∈ ks, cls k = true) (h : sameText w ks = true) : ∀ c ∈ w, cls c = true := by
  induction w generalizing ks with
  | nil => simp
  | cons c w ih =>
    cases ks with
    | nil => exact absurd h (by simp [sameText, lowerAscii])
    | cons k ks =>
      obtain ⟨hc, htail⟩ : c.toLower = k.toLower ∧ lowerAscii w = lowerAscii ks := by
        simpa [sameText, lowerAscii] using h
      intro d hd
      rcases List.mem_cons.mp hd with rfl | hd
      · have hletter : sameLetter d k = true := by simpa [sameLetter] using hc
        rw [eq_of_sameLetter hcls hletter]
        exact hk k (List.mem_cons_self ..)
      · exact ih (fun k' hk' => hk k' (List.mem_cons_of_mem k hk')) (sameText_iff.mpr htail) d hd

/-- A keyword in any case is made of name characters. -/
theorem isNameChar_of_sameText {ks : List Char} (hk : ∀ k ∈ ks, isNameChar k = true)
    (h : sameText w ks = true) : ∀ c ∈ w, isNameChar c = true :=
  forall_mem_of_sameText (by decide) hk h

/-- No name begins with a blank. -/
theorem startsInName_blanks (hw : isBlankText w = true)
    (h : w = [] → startsInName s = false) : startsInName (w ++ s) = false := by
  cases w with
  | nil => exact h rfl
  | cons c w =>
    obtain ⟨hc, -⟩ : isBlank c = true ∧ isBlankText w = true := by simpa [isBlankText] using hw
    exact isNameChar_of_isBlank hc

/-- A parenthesis begins no name. -/
theorem startsInName_opening (s : List Char) : startsInName ('(' :: s) = false :=
  (by decide : isNameChar '(' = false)

/-- No name begins where one ends. -/
theorem startsInName_dropWhile (s : List Char) : startsInName (s.dropWhile isNameChar) = false := by
  have hhead := List.head?_dropWhile_not isNameChar s
  cases hs : s.dropWhile isNameChar with
  | nil => rfl
  | cons c t =>
    rw [hs] at hhead
    simpa [startsInName] using hhead

/-! ### Prologues -/

/-- Blanks, possibly none. -/
def Blanks : Type :=
  { w : List Char // isBlankText w = true }

/-- A keyword in any case. -/
def Spelling (keyword : String) : Type :=
  { w : List Char // sameText w keyword.toList = true }

/-- A text between parentheses, which closes all that it opens. -/
def Enclosed : Type :=
  { s : List Char // Closes 0 s }

/-- The words that a prologue takes for no name. -/
def prologueKeywords : List String := ["SELECT", "AS", "WITH", "RECURSIVE"]

/-- A name without quotation marks: a word, and none of the keywords. -/
def BareName : Type :=
  { w : List Char // w ≠ [] ∧ (∀ c ∈ w, isNameChar c = true) ∧
    ∀ k ∈ prologueKeywords, sameText w k.toList = false }

/-- A binding `name (columns) AS (body)`, with the blanks before and after it. -/
structure Binding where
  before : Blanks
  name : BareName
  /-- The list of columns, with the blanks before its parenthesis. -/
  columns : Option (Blanks × Enclosed)
  beforeAs : Blanks
  asWord : Spelling "AS"
  beforeBody : Blanks
  body : Enclosed
  after : Blanks
  /-- Without a list of columns there are blanks between the name and `AS`. -/
  apart : columns = none → beforeAs.val ≠ []

/-- The list of columns in its parentheses, if there is one. -/
def Binding.columnList (x : Binding) : List Char :=
  x.columns.elim [] fun (gap, columns) => gap.val ++ '(' :: (columns.val ++ [')'])

/-- The text of a binding. -/
def Binding.text (x : Binding) : List Char :=
  x.before.val ++ x.name.val ++ x.columnList ++ x.beforeAs.val ++ x.asWord.val ++
    x.beforeBody.val ++ '(' :: x.body.val ++ ')' :: x.after.val

/-- A prologue of one binding or more. -/
structure Prologue where
  before : Blanks
  withWord : Spelling "WITH"
  /-- The word `RECURSIVE`, with the blanks before it. -/
  recursive : Option ({ w : Blanks // w.val ≠ [] } × Spelling "RECURSIVE")
  first : Binding
  others : List Binding
  /-- There are blanks between a keyword and the first name. -/
  apart : first.before.val ≠ []

namespace Prologue

/-- The word `RECURSIVE`, if it is there. -/
def recursiveWord (p : Prologue) : List Char :=
  p.recursive.elim [] fun (gap, word) => gap.val.val ++ word.val

/-- The text of a prologue: its bindings have commas between them. -/
def text (p : Prologue) : List Char :=
  p.before.val ++ p.withWord.val ++ p.recursiveWord ++ p.first.text ++
    p.others.flatMap fun x => ',' :: x.text

/-- The names of the bindings, as they are written. -/
def names (p : Prologue) : List (List Char) :=
  (p.first :: p.others).map (·.name.val)

end Prologue

/-- The list of columns stands apart from the name, and so does `AS` where there is none. -/
theorem startsInName_columnList (x : Binding) (s : List Char) :
    startsInName (x.columnList ++ (x.beforeAs.val ++ s)) = false := by
  unfold Binding.columnList
  cases hcolumns : x.columns with
  | none =>
    rw [Option.elim_none, List.nil_append]
    exact startsInName_blanks x.beforeAs.property fun h => absurd h (x.apart hcolumns)
  | some list =>
    obtain ⟨gap, columns⟩ := list
    simp only [Option.elim_some, List.append_assoc, List.cons_append]
    exact startsInName_blanks gap.property fun _ => startsInName_opening _

/-! ### Names of a prologue -/

private theorem spelling_ne_nil {keyword : String} (word : Spelling keyword)
    (hne : keyword.toList ≠ []) : word.val ≠ [] := by
  intro hnil
  have h := word.property
  rw [hnil] at h
  cases hk : keyword.toList with
  | nil => exact hne hk
  | cons k ks =>
    rw [hk] at h
    exact absurd h (by simp [sameText, lowerAscii])

namespace Binder

variable (names : List (List Char)) {name : List Char}

/-- `WITH` and `RECURSIVE` make no difference to a reader. -/
theorem collect_with {keyword : String} (word : Spelling keyword)
    (hkeyword : keyword = "WITH" ∨ keyword = "RECURSIVE") (hs : startsInName s = false) :
    ({ names } : Binder).collect (word.val ++ s) = ({ names } : Binder).collect s := by
  have hword := word.property
  have hletters : keyword.toList ≠ [] ∧ (∀ k ∈ keyword.toList, isNameChar k = true) ∧
      sameText keyword.toList "SELECT".toList = false ∧
      sameText keyword.toList "AS".toList = false ∧
      (sameText keyword.toList "WITH".toList ||
        sameText keyword.toList "RECURSIVE".toList) = true := by
    rcases hkeyword with rfl | rfl <;> decide
  obtain ⟨hne, hname, hselect, has, hwith⟩ := hletters
  have hon : ({ names } : Binder).onWord word.val = { names } := by
    simp only [onWord, sameText_congr hword, hselect, has, hwith]
    rfl
  rw [collect_word _ (spelling_ne_nil word hne) (isNameChar_of_sameText hname hword) hs, hon,
    sameText_congr hword, hselect]
  simp

/-- A name is the candidate. -/
theorem collect_name (n : BareName) (hs : startsInName s = false) :
    ({ names } : Binder).collect (n.val ++ s) =
      ({ names, candidate := some (lower n.val) } : Binder).collect s := by
  obtain ⟨hne, hname, hkeywords⟩ := n.property
  have hselect : sameText n.val "SELECT".toList = false := hkeywords _ (by decide)
  have has : sameText n.val "AS".toList = false := hkeywords _ (by decide)
  have hwith : sameText n.val "WITH".toList = false := hkeywords _ (by decide)
  have hrecursive : sameText n.val "RECURSIVE".toList = false := hkeywords _ (by decide)
  rw [collect_word _ hne hname hs, onWord, hselect, has, hwith, hrecursive]
  simp

private theorem collect_columnList (x : Binding) :
    ({ names, candidate := some name } : Binder).collect (x.columnList ++ s) =
      ({ names, candidate := some name } : Binder).collect s := by
  unfold Binding.columnList
  cases x.columns with
  | none => rfl
  | some list =>
    obtain ⟨gap, columns⟩ := list
    simp only [Option.elim_some, List.append_assoc, List.cons_append, List.nil_append]
    rw [collect_blanks _ gap.property, columns.property.collect_parens rfl]
    rfl

/-- `AS` and a body bind the candidate, if there is one. -/
theorem collect_body {b : Binder} (hb : b.depth = 0) (asWord : Spelling "AS") (gap : Blanks)
    (body : Enclosed) :
    b.collect (asWord.val ++ (gap.val ++ '(' :: (body.val ++ ')' :: s))) =
      ({ names := b.candidate.elim b.names (insertName b.names) } : Binder).collect s := by
  have hgap : startsInName (gap.val ++ '(' :: (body.val ++ ')' :: s)) = false :=
    startsInName_blanks gap.property fun _ => startsInName_opening _
  have hword := asWord.property
  have hselect : sameText "AS".toList "SELECT".toList = false := by decide
  have has : sameText "AS".toList "AS".toList = true := by decide
  obtain ⟨depth, expecting, candidate, names⟩ := b
  obtain rfl : depth = 0 := hb
  have hon : ({ expecting, candidate, names } : Binder).onWord asWord.val =
      { expecting := .body, candidate, names } := by
    simp only [onWord, sameText_congr hword, hselect, has]
    rfl
  rw [collect_word _ (spelling_ne_nil asWord (by decide))
    (isNameChar_of_sameText (by decide) hword) hgap, hon, sameText_congr hword, hselect]
  simp only [Bool.false_eq_true, and_false, if_false]
  rw [collect_blanks _ gap.property, body.property.collect_parens rfl]
  rfl

/-- A binding binds its name. -/
theorem collect_binding (x : Binding) :
    ({ names } : Binder).collect (x.text ++ s) =
      ({ names := insertName names (lower x.name.val) } : Binder).collect s := by
  simp only [Binding.text, List.append_assoc, List.cons_append]
  rw [collect_blanks _ x.before.property, collect_name _ x.name (startsInName_columnList x _),
    collect_columnList,
    collect_blanks _ x.beforeAs.property, collect_body rfl, collect_blanks _ x.after.property]
  rfl

private theorem collect_bindings (xs : List Binding) :
    ({ names } : Binder).collect (xs.flatMap (fun x => ',' :: x.text) ++ s) =
      ({ names := (xs.map (lower ·.name.val)).foldl insertName names } : Binder).collect s := by
  induction xs generalizing names with
  | nil => rfl
  | cons x xs ih =>
    rw [List.flatMap_cons, List.append_assoc, List.cons_append, collect_comma]
    change ({ names } : Binder).collect (x.text ++ _) = _
    rw [collect_binding, ih]
    rfl

/-- The main query ends the reading of a prologue. -/
theorem collect_select (h : startsWith "SELECT" s = true) (b : Binder) (hb : b.depth = 0) :
    b.collect s = b.names := by
  have hspan := List.takeWhile_append_dropWhile (p := isNameChar) (l := s)
  have hw : ∀ c ∈ s.takeWhile isNameChar, isNameChar c = true := fun c hc =>
    List.all_eq_true.mp List.all_takeWhile c hc
  have hs := startsInName_dropWhile s
  rw [← hspan, startsWith_select hw hs] at h
  have hne : s.takeWhile isNameChar ≠ [] := by
    intro hnil
    rw [hnil] at h
    exact absurd h (by decide)
  rw [← hspan, b.collect_word hne hw hs, if_pos ⟨hb, h⟩]

end Binder

private theorem foldl_insertName (names : List (List Char)) :
    names.foldl insertName [] = names.eraseDups := by
  induction names using List.reverseRecOn with
  | nil => rfl
  | append_singleton names name ih =>
    rw [List.foldl_append, List.foldl_cons, List.foldl_nil, ih, List.eraseDups_append, insertName]
    simp only [List.mem_eraseDups]
    split
    · next h => simp [List.removeAll, h]
    · next h => simp [List.removeAll, h, List.eraseDups_cons]

/-! ### The main query after a prologue -/

private theorem selectFrom_blanks (hw : isBlankText w = true) :
    selectFrom 0 none false (w ++ s) = selectFrom 0 none false s :=
  selectFrom_blanks_append hw 0 s

/-- A keyword that is no `SELECT` is passed over in any case. -/
theorem selectFrom_spelling {keyword : String} (word : Spelling keyword)
    (hname : ∀ k ∈ keyword.toList, isNameChar k = true)
    (hselect : sameText keyword.toList "SELECT".toList = false) (hs : startsInName s = false) :
    selectFrom 0 none false (word.val ++ s) = selectFrom 0 none false s := by
  apply selectFrom_word (isNameChar_of_sameText hname word.property) _ hs
  rw [sameText_congr word.property, hselect]

private theorem selectFrom_columnList (x : Binding) :
    selectFrom 0 none false (x.columnList ++ s) = selectFrom 0 none false s := by
  unfold Binding.columnList
  cases x.columns with
  | none => rfl
  | some list =>
    obtain ⟨gap, columns⟩ := list
    simp only [Option.elim_some, List.append_assoc, List.cons_append, List.nil_append]
    rw [selectFrom_blanks gap.property, columns.property.selectFrom_parens]

/-- A binding is passed over. -/
theorem selectFrom_binding (x : Binding) :
    selectFrom 0 none false (x.text ++ s) = selectFrom 0 none false s := by
  obtain ⟨-, hname, hkeywords⟩ := x.name.property
  have hgap : ∀ t, startsInName (x.beforeBody.val ++ '(' :: t) = false := fun t =>
    startsInName_blanks x.beforeBody.property fun _ => startsInName_opening t
  simp only [Binding.text, List.append_assoc, List.cons_append]
  rw [selectFrom_blanks x.before.property,
    selectFrom_word hname (hkeywords _ (by decide)) (startsInName_columnList x _),
    selectFrom_columnList, selectFrom_blanks x.beforeAs.property,
    selectFrom_spelling x.asWord (by decide) (by decide) (hgap _),
    selectFrom_blanks x.beforeBody.property, x.body.property.selectFrom_parens,
    selectFrom_blanks x.after.property]

private theorem selectFrom_bindings (xs : List Binding) :
    selectFrom 0 none false (xs.flatMap (fun x => ',' :: x.text) ++ s) =
      selectFrom 0 none false s := by
  have hcomma : ∀ t, selectFrom 0 none false (',' :: t) = selectFrom 0 none false t := by
    intro t
    have hselect : startsWith "SELECT" (',' :: t) = false :=
      startsWith_select (w := []) (by simp) (by decide : isNameChar ',' = false)
    rw [selectFrom, hselect]
    rfl
  induction xs with
  | nil => rfl
  | cons x xs ih =>
    rw [List.flatMap_cons, List.append_assoc, List.cons_append, hcomma, selectFrom_binding, ih]

/-! ### Reading a prologue -/

namespace Prologue

variable (p : Prologue)

private theorem text_append (s : List Char) :
    p.text ++ s = p.before.val ++ (p.withWord.val ++ (p.recursiveWord ++ (p.first.text ++
      (p.others.flatMap (fun x => ',' :: x.text) ++ s)))) := by
  simp only [text, List.append_assoc]

private theorem startsInName_first (s : List Char) : startsInName (p.first.text ++ s) = false := by
  simp only [Binding.text, List.append_assoc]
  exact startsInName_blanks p.first.before.property fun h => absurd h p.apart

private theorem startsInName_recursiveWord (s : List Char) :
    startsInName (p.recursiveWord ++ (p.first.text ++ s)) = false := by
  unfold recursiveWord
  cases p.recursive with
  | none => exact startsInName_first p s
  | some recursive =>
    obtain ⟨⟨gap, hgap⟩, word⟩ := recursive
    simp only [Option.elim_some, List.append_assoc]
    exact startsInName_blanks gap.property fun h => absurd h hgap

private theorem hasPrologue_text (s : List Char) : hasPrologue (p.text ++ s) = true := by
  have hword := p.withWord.property
  have hletters : ∀ k ∈ "WITH".toList, isNameChar k = true := by decide
  have hkey := startsWith_word hletters (isNameChar_of_sameText hletters hword)
    (startsInName_recursiveWord p (p.others.flatMap (fun x => ',' :: x.text) ++ s))
  rw [hword] at hkey
  rw [hasPrologue, text_append, trimStart_append p.before.property]
  obtain ⟨c, t, hct, hc⟩ := exists_of_startsWith (k := 'W') (by decide) hkey
  have hsolid : ¬ isBlank c = true := by
    intro hblank
    rw [sameLetter_of_isBlank (by decide) hblank] at hc
    exact absurd hc (by decide)
  rw [hct, trimStart, List.dropWhile_cons_of_neg hsolid, ← hct, hkey]

/-- The names that a prologue binds in front of a text that begins with `SELECT`. -/
theorem collect_text (hs : startsWith "SELECT" s = true) :
    ({} : Binder).collect (p.text ++ s) = (p.names.map lower).eraseDups := by
  have hrecursive : ∀ t, startsInName t = false →
      ({} : Binder).collect (p.recursiveWord ++ t) = ({} : Binder).collect t := by
    intro t ht
    unfold recursiveWord
    cases p.recursive with
    | none => rfl
    | some recursive =>
      obtain ⟨⟨gap, hgap⟩, word⟩ := recursive
      simp only [Option.elim_some, List.append_assoc]
      rw [Binder.collect_blanks _ gap.property, Binder.collect_with [] word (.inr rfl) ht]
  rw [text_append, Binder.collect_blanks _ p.before.property,
    Binder.collect_with [] p.withWord (.inl rfl) (startsInName_recursiveWord p _),
    hrecursive _ (startsInName_first p _), Binder.collect_binding, Binder.collect_bindings,
    Binder.collect_select hs _ rfl, ← foldl_insertName, names, List.map_map]
  rfl

/-- The main query after a prologue. -/
theorem selectFrom_text (hs : startsWith "SELECT" s = true) :
    selectFrom 0 none false (p.text ++ s) = some s := by
  have hrecursive : ∀ t, startsInName t = false →
      selectFrom 0 none false (p.recursiveWord ++ t) = selectFrom 0 none false t := by
    intro t ht
    unfold recursiveWord
    cases p.recursive with
    | none => rfl
    | some recursive =>
      obtain ⟨⟨gap, hgap⟩, word⟩ := recursive
      simp only [Option.elim_some, List.append_assoc]
      rw [selectFrom_blanks gap.property, selectFrom_spelling word (by decide) (by decide) ht]
  rw [text_append, selectFrom_blanks p.before.property,
    selectFrom_spelling p.withWord (by decide) (by decide) (startsInName_recursiveWord p _),
    hrecursive _ (startsInName_first p _), selectFrom_binding, selectFrom_bindings,
    selectFrom_select hs]

end Prologue

/-- The names that a well-formed prologue binds are those of its bindings, in lower case and each
once, and the main query is what follows the prologue. -/
theorem structureOf_prologue (p : Prologue) {m : List Char} (hm : startsWith "SELECT" m = true)
    (h : removeComments (p.text ++ m) = p.text ++ m) :
    (structureOf (p.text ++ m)).boundNames = (p.names.map lower).eraseDups ∧
      (structureOf (p.text ++ m)).mainQuery = trim m := by
  have hprologue := p.hasPrologue_text m
  constructor
  · have hblanked : hasPrologue (blankStrings (p.text ++ m)) = true := by
      rw [blankStrings, hasPrologue_blankFrom, hprologue]
    rw [boundNames_structureOf, h, boundNames, if_pos hblanked]
    exact p.collect_text hm
  · rw [mainQuery_structureOf, h, mainQuery, if_pos hprologue, p.selectFrom_text hm]
    rfl

/-- A binding `name as (SELECT 1)`. -/
private def simpleBinding (name : BareName) : Binding where
  before := ⟨[' '], by decide⟩
  name := name
  columns := none
  beforeAs := ⟨[' '], by decide⟩
  asWord := ⟨"as".toList, by decide⟩
  beforeBody := ⟨[' '], by decide⟩
  body := ⟨"SELECT 1".toList ++ [], .append (by decide) .nil⟩
  after := ⟨['\n'], by decide⟩
  apart := by simp

/-- A binding that has a list of columns and, in a literal of its body, a parenthesis. -/
private def quotedParenthesis (name : BareName) : Binding where
  before := ⟨[' '], by decide⟩
  name := name
  columns := some (⟨[' '], by decide⟩, ⟨"x, y".toList ++ [], .append (by decide) .nil⟩)
  beforeAs := ⟨[], rfl⟩
  asWord := ⟨"AS".toList, by decide⟩
  beforeBody := ⟨[], rfl⟩
  body := ⟨"SELECT ".toList ++ apostrophe :: ([')'] ++ apostrophe :: (" FROM t".toList ++ [])),
    .append (by decide) (.span rfl (.char (by decide) (by decide) .nil)
      (.append (by decide) .nil))⟩
  after := ⟨[], rfl⟩
  apart := by simp

/-- A prologue of three bindings, two of which have the same name. -/
private def threeBindings : Prologue where
  before := ⟨[], rfl⟩
  withWord := ⟨"with".toList, by decide⟩
  recursive := some (⟨⟨[' '], by decide⟩, by decide⟩, ⟨"Recursive".toList, by decide⟩)
  first := quotedParenthesis ⟨['A'], by decide⟩
  others := [simpleBinding ⟨['b'], by decide⟩, simpleBinding ⟨['a'], by decide⟩]
  apart := List.cons_ne_nil ' ' []

/-- Three bindings and the main query after them. -/
theorem structureOf_threeBindings :
    let text := threeBindings.text ++ "SELECT * FROM a, b ".toList
    text = ("with Recursive A (x, y)AS(SELECT ')' FROM t), b as (SELECT 1)\n, a as (SELECT 1)\n" ++
        "SELECT * FROM a, b ").toList ∧
      (structureOf text).boundNames = ["a".toList, "b".toList] ∧
      (structureOf text).mainQuery = "SELECT * FROM a, b".toList := by
  intro text
  obtain ⟨hnames, hmain⟩ := structureOf_prologue threeBindings
    (m := "SELECT * FROM a, b ".toList) (by decide) (by decide)
  refine ⟨by decide, hnames.trans ?_, hmain.trans (by decide)⟩
  decide

end SqlReview.Query

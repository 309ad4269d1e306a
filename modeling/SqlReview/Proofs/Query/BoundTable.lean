import SqlReview.Proofs.Lexical.Plain
import SqlReview.Proofs.Query.NamesAfter
import SqlReview.Proofs.Query.Prologue

/-!
# A bound name as a table

The statement `WITH name AS (body) SELECT * FROM name`. A search for tables and the reader of a
prologue do not read the same names: a dollar sign belongs to the name of a table only, and a
quoted name that spells a keyword is a keyword to the reader of a prologue. For such names the
table is counted although the prologue binds it, and for all others it is not.
-/

namespace SqlReview.Query

open SqlReview.Text SqlReview.Lexical SqlReview.Search

/-! ### Tables and bound names -/

private theorem mem_insertName {names : List (List Char)} {name x : List Char} :
    x ∈ insertName names name ↔ x ∈ names ∨ x = name := by
  unfold insertName
  split
  · next h =>
    refine ⟨.inl, ?_⟩
    rintro (hx | rfl)
    · exact hx
    · exact h
  · rw [List.mem_append, List.mem_singleton]

/-- The tables are the names of the candidates that are not bound. -/
theorem mem_tables {s name : List Char} {bound : List (List Char)} :
    name ∈ tables s bound ↔
      name ∈ (tableCandidates s).filterMap tableName? ∧ name ∉ bound := by
  have hfold : ∀ names found : List (List Char),
      name ∈ names.foldl
          (fun found x => if bound.contains x then found else insertName found x) found ↔
        name ∈ found ∨ name ∈ names ∧ name ∉ bound := by
    intro names
    induction names with
    | nil => simp
    | cons x names ih =>
      intro found
      rw [List.foldl_cons, ih, List.mem_cons]
      split
      · next hx =>
        have hne : name ∉ bound → name ≠ x := by
          rintro hname rfl
          exact hname (List.contains_iff_mem.mp hx)
        grind
      · next hx =>
        rw [mem_insertName]
        have hbound : x ∉ bound := fun h => hx (List.contains_iff_mem.mpr h)
        grind
  rw [tables, hfold]
  simp

/-! ### Names made of words -/

namespace Binder

variable {b : Binder} {p : List Char → Prop}

/-- Whether what a reader has bound, and what it may bind next, is of a kind. -/
structure BindsOnly (p : List Char → Prop) (b : Binder) : Prop where
  names : ∀ x ∈ b.names, p x
  candidate : ∀ x, b.candidate = some x → p x

private theorem BindsOnly.onWord (h : b.BindsOnly p) {w : List Char} (hw : p (lower w)) :
    (b.onWord w).BindsOnly p := by
  unfold Binder.onWord
  split
  · exact h
  · split
    · exact h
    · split
      · exact ⟨h.names, h.candidate⟩
      · split
        · exact h
        · split
          · refine ⟨h.names, ?_⟩
            intro x hx
            obtain rfl := Option.some.inj hx
            exact hw
          · exact h

private theorem BindsOnly.onOpening (h : b.BindsOnly p) : b.onOpening.BindsOnly p := by
  unfold Binder.onOpening
  split
  · exact ⟨h.names, h.candidate⟩
  · split
    · refine ⟨?_, by simp⟩
      intro x hx
      cases hc : b.candidate with
      | none =>
        rw [hc] at hx
        exact h.names x hx
      | some name =>
        rw [hc] at hx
        rcases mem_insertName.mp hx with hx | rfl
        · exact h.names x hx
        · exact h.candidate x hc
    · exact ⟨h.names, h.candidate⟩
    · exact ⟨h.names, h.candidate⟩

private theorem BindsOnly.onClosing (h : b.BindsOnly p) : b.onClosing.BindsOnly p := by
  unfold Binder.onClosing
  split
  · exact h
  · refine ⟨h.names, ?_⟩
    intro x hx
    split at hx
    · exact h.candidate x hx
    · exact absurd hx (by simp)
  · exact ⟨h.names, h.candidate⟩

private theorem BindsOnly.onComma (h : b.BindsOnly p) : b.onComma.BindsOnly p := by
  unfold Binder.onComma
  split
  · exact ⟨h.names, by simp⟩
  · exact h

/-- A reader binds names of words that it has read. -/
theorem BindsOnly.run (h : b.BindsOnly p) {ts : List Token}
    (hts : ∀ w, .word w ∈ ts ∨ .quoted w ∈ ts → p (lower w)) : ∀ x ∈ b.run ts, p x := by
  induction ts generalizing b with
  | nil => exact h.names
  | cons t ts ih =>
    have htail : ∀ w, .word w ∈ ts ∨ .quoted w ∈ ts → p (lower w) := by
      intro w hw
      exact hts w (hw.imp (List.mem_cons_of_mem t) (List.mem_cons_of_mem t))
    cases t with
    | opening => exact ih h.onOpening htail
    | closing => exact ih h.onClosing htail
    | comma => exact ih h.onComma htail
    | quoted w => exact ih (h.onWord (hts w (.inr (List.mem_cons_self ..)))) htail
    | word w =>
      rw [Binder.run]
      split
      · exact h.names
      · exact ih (h.onWord (hts w (.inl (List.mem_cons_self ..)))) htail

end Binder

/-- In a text without quotation marks all words are made of name characters. -/
theorem isNameChar_of_mem_tokens {s : List Char} (hquotes : ∀ c ∈ s, isQuote c = false)
    {w : List Char} (hw : .word w ∈ tokens s ∨ .quoted w ∈ tokens s) :
    ∀ c ∈ w, isNameChar c = true := by
  fun_induction tokens s with
  | case1 => simp at hw
  | case2 c s hopen ih | case3 c s hopen hclose ih | case4 c s hopen hclose hcomma ih =>
    exact ih (fun d hd => hquotes d (List.mem_cons_of_mem c hd)) (by simpa using hw)
  | case5 c s hopen hclose hcomma hmark ih =>
    obtain ⟨hbacktick, hdouble⟩ := beq_of_isQuote_eq_false (hquotes c (List.mem_cons_self ..))
    rw [hbacktick, hdouble] at hmark
    exact absurd hmark (by decide)
  | case6 c s hopen hclose hcomma hmark hname ih =>
    by_cases hword : w = c :: s.takeWhile isNameChar
    · rw [hword]
      intro d hd
      rcases List.mem_cons.mp hd with rfl | hd
      · exact hname
      · exact List.all_eq_true.mp List.all_takeWhile d hd
    · apply ih _ (by simpa [hword] using hw)
      intro d hd
      exact hquotes d (List.mem_cons_of_mem c ((List.dropWhile_sublist _).mem hd))
  | case7 c s hopen hclose hcomma hmark hname ih =>
    exact ih (fun d hd => hquotes d (List.mem_cons_of_mem c hd)) hw

/-! ### Simple names -/

/-- A letter, a digit, an underscore or a dollar sign of ASCII. -/
def isSimpleChar (c : Char) : Bool :=
  c.isAlphanum || c == '_' || c == '$'

/-- A name of ASCII letters, digits, underscores and dollar signs that begins with a letter. It is
none of the keywords that never name a table. -/
structure SimpleName where
  text : List Char
  simple : ∀ c ∈ text, isSimpleChar c = true
  letter : text.head?.any Char.isAlpha = true
  free : ∀ k ∈ tableKeywords, sameText text k.toList = false

/-- How a name is written. -/
inductive Quoting where
  | bare
  | backticks
  | doubleQuotes
  deriving Repr, DecidableEq

/-- The mark on either side of a name. -/
def Quoting.mark? : Quoting → Option Char
  | .bare => none
  | .backticks => some backtick
  | .doubleQuotes => some doubleQuote

/-- A name as it is written. -/
def Quoting.write (q : Quoting) (n : List Char) : List Char :=
  q.mark?.elim n fun m => m :: (n ++ [m])

/-- A name is written bare or between marks of identifiers. -/
theorem Quoting.write_eq (q : Quoting) (n : List Char) :
    q = .bare ∧ q.write n = n ∨
      q ≠ .bare ∧ ∃ m, (m = backtick ∨ m = doubleQuote) ∧ q.write n = m :: (n ++ [m]) := by
  cases q with
  | bare => exact .inl ⟨rfl, rfl⟩
  | backticks => exact .inr ⟨by decide, backtick, .inl rfl, rfl⟩
  | doubleQuotes => exact .inr ⟨by decide, doubleQuote, .inr rfl, rfl⟩

/-- A backtick and a double quote are quotation marks. -/
theorem isQuote_of_mark {m : Char} (hm : m = backtick ∨ m = doubleQuote) : isQuote m = true := by
  rcases hm with rfl | rfl <;> decide

private theorem ne_of_isSimpleChar {c k : Char} (hc : isSimpleChar c = true)
    (hk : isSimpleChar k = false) : c ≠ k := by
  rintro rfl
  rw [hc] at hk
  exact absurd hk (by decide)

/-- A simple character is in ASCII. -/
theorem isAscii_of_isSimpleChar {c : Char} (h : isSimpleChar c = true) : c.toNat < 128 := by
  delta isSimpleChar Char.isAlphanum Char.isAlpha Char.isUpper Char.isLower Char.isDigit at h
  simp only [Bool.or_eq_true, Bool.and_eq_true, decide_eq_true_eq, beq_iff_eq, ge_iff_le,
    UInt32.le_iff_toNat_le] at h
  rcases h with (((h | h) | h) | rfl) | rfl
  · exact Nat.lt_of_le_of_lt h.2 (by decide)
  · exact Nat.lt_of_le_of_lt h.2 (by decide)
  · exact Nat.lt_of_le_of_lt h.2 (by decide)
  · decide
  · decide

/-- A simple character is a name character, unless it is a dollar sign. -/
theorem isNameChar_of_isSimpleChar {c : Char} (h : isSimpleChar c = true) (hne : c ≠ '$') :
    isNameChar c = true := by
  have hascii := isAscii_of_isSimpleChar h
  have hclass : (c.isAlpha || c.isDigit || c == '_') = true := by
    simpa [isSimpleChar, Char.isAlphanum, hne] using h
  simp only [Bool.or_eq_true] at hclass
  rw [isNameChar, isAlphabetic, isDigit, if_pos hascii, if_pos hascii]
  rcases hclass with (h | h) | h <;> simp [h]

/-- A simple character belongs to the name of a table. -/
theorem isTableChar_of_isSimpleChar {c : Char} (h : isSimpleChar c = true) :
    isTableChar c = true := by
  by_cases hc : c = '$'
  · subst hc
    decide
  · rw [isTableChar, isWordChar_eq_isNameChar (isAscii_of_isSimpleChar h),
      isNameChar_of_isSimpleChar h hc]
    rfl

/-- A simple character is no quotation mark. -/
theorem isQuote_of_isSimpleChar {c : Char} (h : isSimpleChar c = true) : isQuote c = false := by
  have hmark : ∀ k, isSimpleChar k = false → (c == k) = false := fun k hk =>
    beq_eq_false_iff_ne.mpr (ne_of_isSimpleChar h hk)
  rw [isQuote, hmark apostrophe (by decide), hmark doubleQuote (by decide),
    hmark backtick (by decide)]
  rfl

/-! ### Written names -/

private theorem SpanContent.plain {m : Char} (hm : isQuote m = true) {inside : List Char}
    (h : SpanContent m inside) {t : List Char} (ht : Plain t) :
    Plain (m :: (inside ++ m :: t)) := by
  have hcode : removeFrom .code t = t := ht
  have hslash : ∀ c : Char, isQuote c = true → c ≠ backslash := by
    rintro c hc rfl
    exact absurd hc (by decide)
  have hspan : removeFrom (.quoted m) (inside ++ m :: t) = inside ++ m :: t := by
    induction h with
    | nil =>
      rw [List.nil_append, removeFrom_quoted_cons fun h => absurd h (hslash m hm),
        Region.afterQuoted, if_pos rfl, hcode]
    | char hc hback _ ih =>
      rw [List.cons_append, removeFrom_quoted_cons fun h => absurd h hback, Region.afterQuoted,
        if_neg hc, ih]
    | escape _ _ ih => exact congrArg (fun s => backslash :: _ :: s) ih
  have hopens : ¬ opensComment m (inside ++ m :: t) := by
    rintro (⟨rfl, -⟩ | ⟨rfl, -⟩) <;> exact absurd hm (by decide)
  rw [Plain, removeComments, removeFrom_code_cons hopens, Region.afterCode, if_pos hm, hspan]

namespace SimpleName

variable (n : SimpleName) (q : Quoting)

private theorem ne_nil : n.text ≠ [] := by
  intro h
  have hletter := n.letter
  rw [h] at hletter
  exact absurd hletter (by decide)

/-- A simple name may stand in a span. -/
theorem spanContent {m : Char} (hm : isQuote m = true) : SpanContent m n.text := by
  have hsimple := n.simple
  generalize n.text = w at hsimple
  induction w with
  | nil => exact .nil
  | cons c w ih =>
    have hc := hsimple c (List.mem_cons_self ..)
    have hmark : isSimpleChar m = false := by
      rw [Bool.eq_false_iff]
      intro h
      rw [isQuote_of_isSimpleChar h] at hm
      exact absurd hm (by decide)
    exact .char (ne_of_isSimpleChar hc hmark) (ne_of_isSimpleChar hc (by decide))
      (ih fun d hd => hsimple d (List.mem_cons_of_mem c hd))

private theorem write_ne_nil : q.write n.text ≠ [] := by
  rcases q.write_eq n.text with ⟨-, hw⟩ | ⟨-, m, -, hw⟩
  · rw [hw]
    exact n.ne_nil
  · rw [hw]
    exact List.cons_ne_nil m _

/-- A written name is the name of a table as a search reads it. -/
theorem isTableChar_of_mem_write {c : Char} (hc : c ∈ q.write n.text) : isTableChar c = true := by
  have htext : c ∈ n.text → isTableChar c = true := fun hc =>
    isTableChar_of_isSimpleChar (n.simple c hc)
  rcases q.write_eq n.text with ⟨-, hw⟩ | ⟨-, m, hm, hw⟩
  · rw [hw] at hc
    exact htext hc
  · have hmark : isTableChar m = true := by
      rcases hm with rfl | rfl <;> decide
    rw [hw] at hc
    simp only [List.mem_cons, List.mem_append, List.not_mem_nil, or_false] at hc
    rcases hc with rfl | hc | rfl
    · exact hmark
    · exact htext hc
    · exact hmark

/-- What is no character of a table name does not stand in a written name. -/
theorem not_mem_write {k : Char} (hk : isTableChar k = false) : k ∉ q.write n.text := by
  intro h
  rw [n.isTableChar_of_mem_write q h] at hk
  exact absurd hk (by decide)

private theorem filter_write :
    (q.write n.text).filter (fun c => c != backtick && c != doubleQuote) = n.text := by
  have htext : n.text.filter (fun c => c != backtick && c != doubleQuote) = n.text := by
    apply List.filter_eq_self.mpr
    intro c hc
    obtain ⟨hbacktick, hdouble⟩ :=
      beq_of_isQuote_eq_false (isQuote_of_isSimpleChar (n.simple c hc))
    rw [bne, bne, hbacktick, hdouble]
    rfl
  rcases q.write_eq n.text with ⟨-, hw⟩ | ⟨-, m, hm, hw⟩
  · rw [hw, htext]
  · have hmark : ∀ l : List Char, (m :: l).filter (fun c => c != backtick && c != doubleQuote) =
        l.filter fun c => c != backtick && c != doubleQuote := by
      intro l
      rcases hm with rfl | rfl <;> rfl
    rw [hw, hmark, List.filter_append, htext, hmark, List.filter_nil, List.append_nil]

private theorem tableName?_write : tableName? (q.write n.text) = some (lower n.text) := by
  have hparen : (q.write n.text).contains '(' = false := by
    rw [Bool.eq_false_iff]
    intro h
    exact n.not_mem_write q (by decide) (List.contains_iff_mem.mp h)
  have hperiod : (n.text.head? == some '.') = false := by
    rw [beq_eq_false_iff_ne]
    intro h
    exact ne_of_isSimpleChar (n.simple '.' (List.mem_of_head? h)) (by decide) rfl
  have hempty : n.text.isEmpty = false := by simpa using n.ne_nil
  have hkeyword : tableKeywords.any (sameText n.text ·.toList) = false := by
    rw [List.any_eq_false]
    intro k hk
    simp [n.free k hk]
  simp only [tableName?, hparen, n.filter_write q, hperiod, hempty, hkeyword]
  rfl

private theorem plain_write_append {t : List Char} (ht : Plain t) :
    Plain (q.write n.text ++ t) := by
  rcases q.write_eq n.text with ⟨-, hw⟩ | ⟨-, m, hm, hw⟩
  · rw [hw]
    apply ht.append_of_forall
    intro c hc
    have hsimple := n.simple c hc
    exact ⟨isQuote_of_isSimpleChar hsimple, ne_of_isSimpleChar hsimple (by decide),
      ne_of_isSimpleChar hsimple (by decide)⟩
  · have hquote := isQuote_of_mark hm
    rw [hw, List.cons_append, List.append_assoc]
    exact (n.spanContent hquote).plain hquote ht

end SimpleName

/-! ### The statement -/

/-- The statement that binds a name and selects from it. -/
def boundStatement (name body : List Char) : List Char :=
  "WITH ".toList ++ name ++ " AS (".toList ++ body ++ ") SELECT * FROM ".toList ++ name

private theorem boundStatement_eq (name body : List Char) :
    boundStatement name body =
      "WITH ".toList ++ (name ++ (" AS (".toList ++ (body ++
        (") SELECT * FROM ".toList ++ name)))) := by
  unfold boundStatement
  simp only [List.append_assoc]

variable (q : Quoting) (n : SimpleName) {body : List Char}

private theorem plain_boundStatement (hquotes : ∀ c ∈ body, isQuote c = false)
    (hbody : Plain body) : Plain (boundStatement (q.write n.text) body) := by
  have hname : Plain (q.write n.text) := by
    have h := n.plain_write_append q (t := []) rfl
    rwa [List.append_nil] at h
  have hfrom : Plain (") SELECT * FROM ".toList ++ q.write n.text) :=
    hname.append_of_forall (by decide)
  have hinside : Plain (body ++ (") SELECT * FROM ".toList ++ q.write n.text)) :=
    hbody.append (hbody.after_code hquotes) hfrom (by simp) (by simp)
  have has : Plain (" AS (".toList ++ (body ++ (") SELECT * FROM ".toList ++ q.write n.text))) :=
    hinside.append_of_forall (by decide)
  rw [boundStatement_eq]
  exact (n.plain_write_append q has).append_of_forall (by decide)

/-- What is so of the characters of the name, of the body and of the words around them is so of the
characters of the statement. -/
theorem forall_mem_boundStatement {p : Char → Prop} {name : List Char}
    (hwords : ∀ w ∈ ["WITH ", " AS (", ") SELECT * FROM "], ∀ c ∈ w.toList, p c)
    (hname : ∀ c ∈ name, p c) (hbody : ∀ c ∈ body, p c) : ∀ c ∈ boundStatement name body, p c := by
  intro c hc
  rw [boundStatement_eq] at hc
  simp only [List.mem_append] at hc
  rcases hc with hc | hc | hc | hc | hc | hc
  · exact hwords _ (by simp) c hc
  · exact hname c hc
  · exact hwords _ (by simp) c hc
  · exact hbody c hc
  · exact hwords _ (by simp) c hc
  · exact hname c hc

/-- No string of the statement is blanked. -/
theorem blankStrings_boundStatement (hquotes : ∀ c ∈ body, isQuote c = false) :
    blankStrings (boundStatement (q.write n.text) body) =
      boundStatement (q.write n.text) body := by
  apply blankFrom_eq_self _ (by simp)
  refine forall_mem_boundStatement (p := fun c => (c == apostrophe) = false) (by decide) ?_ ?_
  · intro c hc
    rw [beq_eq_false_iff_ne]
    rintro rfl
    exact n.not_mem_write q (by decide) hc
  · exact fun c hc => beq_apostrophe_of_isQuote (hquotes c hc)

/-! ### The bound name -/

/-- What a reader makes of the first word after `WITH`. -/
theorem Binder.onWord_start (w : List Char) :
    (({} : Binder).onWord w).depth = 0 ∧ (({} : Binder).onWord w).names = [] ∧
      (({} : Binder).onWord w).candidate =
        if prologueKeywords.any (sameText w ·.toList) then none else some (lower w) := by
  have hkeywords : prologueKeywords.any (sameText w ·.toList) =
      (sameText w "SELECT".toList || (sameText w "AS".toList ||
        (sameText w "WITH".toList || (sameText w "RECURSIVE".toList || false)))) := rfl
  rw [hkeywords]
  unfold Binder.onWord
  generalize sameText w "SELECT".toList = select
  generalize sameText w "AS".toList = as
  generalize sameText w "WITH".toList = withs
  generalize sameText w "RECURSIVE".toList = recursives
  cases select with
  | true => exact ⟨rfl, rfl, rfl⟩
  | false =>
    cases as with
    | true => exact ⟨rfl, rfl, rfl⟩
    | false => cases withs <;> cases recursives <;> exact ⟨rfl, rfl, rfl⟩

/-- A reader reads a written name as one word, unless it is bare and has a dollar sign. -/
theorem SimpleName.collect_write (hname : q = .bare → '$' ∉ n.text)
    (hselect : q = .bare → sameText n.text "SELECT".toList = false) {s : List Char}
    (hs : startsInName s = false) :
    ({} : Binder).collect (q.write n.text ++ s) = (({} : Binder).onWord n.text).collect s := by
  rcases q.write_eq n.text with ⟨hq, hw⟩ | ⟨-, m, hm, hw⟩
  · have hchars : ∀ c ∈ n.text, isNameChar c = true := by
      intro c hc
      apply isNameChar_of_isSimpleChar (n.simple c hc)
      rintro rfl
      exact hname hq hc
    rw [hw, Binder.collect_word _ n.ne_nil hchars hs, hselect hq]
    simp
  · rw [hw, List.cons_append, List.append_assoc]
    exact Binder.collect_quoted _ hm (n.spanContent (isQuote_of_mark hm)) s

/-- The names that the prologue of the statement binds, when its name is read as one word. -/
theorem collect_boundStatement {name : List Char} {body : Enclosed} {w : List Char}
    (hw : ∀ s, startsInName s = false →
      ({} : Binder).collect (name ++ s) = (({} : Binder).onWord w).collect s) :
    ({} : Binder).collect (boundStatement name body.val) =
      if prologueKeywords.any (sameText w ·.toList) then [] else [lower w] := by
  obtain ⟨hdepth, hnames, hcandidate⟩ := Binder.onWord_start w
  have hspace : isBlankText [' '] = true := rfl
  have hselect : startsWith "SELECT" ("SELECT * FROM ".toList ++ name) = true := rfl
  have hwith : ({} : Binder).collect (boundStatement name body.val) =
      ({} : Binder).collect (name ++ ([' '] ++ ("AS".toList ++ ([' '] ++ '(' :: (body.val ++
        ')' :: ([' '] ++ ("SELECT * FROM ".toList ++ name))))))) := by
    rw [boundStatement_eq]
    change ({} : Binder).collect ("WITH".toList ++ ([' '] ++ (name ++ _))) = _
    rw [Binder.collect_with [] ⟨"WITH".toList, by decide⟩ (.inl rfl) rfl,
      Binder.collect_blanks _ hspace]
    rfl
  rw [hwith, hw _ rfl, Binder.collect_blanks _ hspace,
    Binder.collect_body hdepth ⟨"AS".toList, by decide⟩ ⟨[' '], hspace⟩ body,
    Binder.collect_blanks _ hspace, Binder.collect_select hselect _ rfl, hnames, hcandidate]
  split
  · rfl
  · rfl

/-- No name with a dollar sign is bound in a text without quotation marks. -/
theorem dollar_not_mem_of_mem_collect {s : List Char} (hquotes : ∀ c ∈ s, isQuote c = false)
    {x : List Char} (hx : x ∈ ({} : Binder).collect s) : '$' ∉ x := by
  have hblank : blankStrings s = s :=
    blankFrom_eq_self _ (by simp) fun c hc => beq_apostrophe_of_isQuote (hquotes c hc)
  have hstart : ({} : Binder).BindsOnly ('$' ∉ ·) := ⟨by simp, by simp⟩
  rw [Binder.collect, hblank] at hx
  apply hstart.run _ x hx
  intro w hw hdollar
  rw [mem_lower (by decide) (by decide) (by decide)] at hdollar
  exact absurd (isNameChar_of_mem_tokens hquotes hw '$' hdollar) (by decide)

/-- The prologue of the statement binds its name unless the reader of prologues takes the name for
a keyword or breaks it at a dollar sign. -/
theorem lower_mem_boundNames_iff (body : Enclosed) (hquotes : ∀ c ∈ body.val, isQuote c = false)
    (hbare : q = .bare → ∀ k ∈ prologueKeywords, sameText n.text k.toList = false) :
    lower n.text ∈ boundNames (boundStatement (q.write n.text) body.val) ↔
      if q = .bare then '$' ∉ n.text
      else ∀ k ∈ prologueKeywords, sameText n.text k.toList = false := by
  have hcollect : boundNames (boundStatement (q.write n.text) body.val) =
      ({} : Binder).collect (boundStatement (q.write n.text) body.val) := by
    have hprologue : hasPrologue (boundStatement (q.write n.text) body.val) = true := by
      rw [boundStatement_eq]
      rfl
    rw [boundNames, if_pos hprologue, Binder.collect, blankStrings_boundStatement q n hquotes]
  rw [hcollect]
  by_cases hdollar : q = .bare ∧ '$' ∈ n.text
  · obtain ⟨rfl, hdollar⟩ := hdollar
    have hlower : '$' ∈ lower n.text :=
      (mem_lower (by decide) (by decide) (by decide) _).mpr hdollar
    have hall : ∀ c ∈ boundStatement n.text body.val, isQuote c = false :=
      forall_mem_boundStatement (by decide) (fun c hc => isQuote_of_isSimpleChar (n.simple c hc))
        hquotes
    rw [if_pos rfl]
    exact iff_of_false (fun h => dollar_not_mem_of_mem_collect hall h hlower) (fun h => h hdollar)
  · have hname : q = .bare → '$' ∉ n.text := fun hq h => hdollar ⟨hq, h⟩
    rw [collect_boundStatement fun s hs =>
      n.collect_write q hname (fun hq => hbare hq _ (by decide)) hs]
    have hkeyword : prologueKeywords.any (sameText n.text ·.toList) = true ↔
        ¬ ∀ k ∈ prologueKeywords, sameText n.text k.toList = false := by
      simp only [List.any_eq_true, not_forall, Bool.not_eq_false, exists_prop]
    by_cases hq : q = .bare
    · rw [if_pos hq, if_neg (fun h => hkeyword.mp h (hbare hq)), List.mem_singleton]
      exact iff_of_true rfl (hname hq)
    · rw [if_neg hq]
      split
      · next h => exact iff_of_false (by simp) (hkeyword.mp h)
      · next h => exact iff_of_true (List.mem_singleton_self _) (not_not.mp (mt hkeyword.mpr h))

/-! ### The table -/

private theorem takes_introducedName : (introducedName "FROM").Takes (· != ')') := by
  have hclass : ∀ {cls : Char → Bool}, cls ')' = false → ∀ c, cls c = true → (c != ')') = true := by
    intro cls hcls c hc
    rw [bne_iff_ne]
    rintro rfl
    rw [hcls] at hc
    exact Bool.false_ne_true hc
  have hletters : (Phrase.letters "FROM").Takes (· != ')') := by
    apply Phrase.takes_letters
    intro k hk c hc
    exact hclass ((by decide : ∀ k ∈ "FROM".toList, foldsTo k ')' = false) k hk) c hc
  have hgap : Phrase.gap.Takes (· != ')') :=
    (Phrase.takes_one (hclass (by decide))).seq (Phrase.takes_run (hclass (by decide)))
  have hname : (Phrase.atLeastOne isTableChar).Takes (· != ')') :=
    (Phrase.takes_one (hclass (by decide))).seq (Phrase.takes_run (hclass (by decide)))
  have hcall : callMark.Takes (· != ')') :=
    (Phrase.takes_run (hclass (by decide))).seq (Phrase.takes_one (hclass (by decide)))
  exact (Phrase.takes_boundary.seq (hletters.seq hgap)).seq (hname.seq hcall.opt)

private theorem mem_namesAfter_append {name t : List Char} (h : name ∈ namesAfter "FROM" t)
    (s : List Char) : name ∈ namesAfter "FROM" (s ++ ')' :: t) := by
  obtain ⟨os, hos⟩ := takes_introducedName.occurrencesFrom_append
    (moves_introducedName (by decide)) (m := ')') (by decide) none s t
  rw [namesAfter, occurrences, hos, List.filterMap_append, namesAfter_of_before "FROM" (by decide)]
  exact List.mem_append_right _ h

private theorem mem_tableCandidates_of_from {w : List Char} (hne : w ≠ [])
    (hw : ∀ d ∈ w, isTableChar d = true) (s : List Char) :
    w ∈ tableCandidates (s ++ (") SELECT * FROM ".toList ++ w)) := by
  have hk : "FROM" ∈ introducers := by decide
  have htext : " SELECT * FROM ".toList ++ w =
      ' ' :: ("SELECT".toList ++
        (' ' :: '*' :: ' ' :: ("FROM".toList ++ ([' '] ++ (w ++ []))))) := by
    rw [List.append_nil]
    rfl
  have hname : w ∈ namesAfter "FROM" (" SELECT * FROM ".toList ++ w) := by
    rw [htext, namesAfter_mark hk (by decide), namesAfter_word hk (by decide) (by decide) rfl,
      namesAfter_mark hk (by decide), namesAfter_mark hk (by decide),
      namesAfter_mark hk (by decide),
      namesAfter_name hk (by decide) (by decide) (by decide) hw hne rfl (by decide)]
    exact List.mem_cons_self ..
  rw [tableCandidates, List.append_assoc]
  exact List.mem_append_left _ (mem_namesAfter_append hname s)

/-- A name that a prologue binds is counted as a table when the search for tables and the reader of
prologues take it differently: when it is bare and has a dollar sign, or is quoted and spells a
keyword. -/
theorem lower_mem_tables_iff (body : Enclosed) (hquotes : ∀ c ∈ body.val, isQuote c = false)
    (hplain : Plain body.val)
    (hbare : q = .bare → ∀ k ∈ prologueKeywords, sameText n.text k.toList = false) :
    lower n.text ∈ (structureOf (boundStatement (q.write n.text) body.val)).tables ↔
      q = .bare ∧ '$' ∈ n.text ∨
        q ≠ .bare ∧ ∃ k ∈ prologueKeywords, sameText n.text k.toList = true := by
  have hcomments := plain_boundStatement q n hquotes hplain
  have hcandidate :
      q.write n.text ∈ tableCandidates (boundStatement (q.write n.text) body.val) := by
    have h := mem_tableCandidates_of_from (n.write_ne_nil q)
      (fun c hc => n.isTableChar_of_mem_write q hc)
      ("WITH ".toList ++ q.write n.text ++ " AS (".toList ++ body.val)
    simp only [List.append_assoc] at h
    rw [boundStatement_eq]
    exact h
  have hname : lower n.text ∈
      (tableCandidates (boundStatement (q.write n.text) body.val)).filterMap tableName? :=
    List.mem_filterMap.mpr ⟨_, hcandidate, n.tableName?_write q⟩
  rw [Plain] at hcomments
  rw [tables_structureOf, hcomments, blankStrings_boundStatement q n hquotes, mem_tables,
    and_iff_right hname, lower_mem_boundNames_iff q n body hquotes hbare]
  by_cases hq : q = .bare
  · simp [hq]
  · simp [hq]

private theorem closes_selectOne : Closes 0 ("SELECT 1".toList ++ []) :=
  .append (by decide) .nil

/-- The body `SELECT 1`. -/
private def selectOne : Enclosed :=
  ⟨"SELECT 1".toList ++ [], closes_selectOne⟩

/-- Two bound names that are counted as tables, and one that is not. -/
theorem lower_mem_tables_dollar_and_keyword :
    let tablesOf := fun s : String => (structureOf s.toList).tables
    "a$b".toList ∈ tablesOf "WITH a$b AS (SELECT 1) SELECT * FROM a$b" ∧
      "as".toList ∈ tablesOf "WITH \"as\" AS (SELECT 1) SELECT * FROM \"as\"" ∧
      "as$".toList ∉ tablesOf "WITH `As$` AS (SELECT 1) SELECT * FROM `As$`" := by
  intro tablesOf
  have hquotes : ∀ c ∈ selectOne.val, isQuote c = false := by decide
  have hplain : Plain selectOne.val := .append_of_forall (t := []) rfl (by decide)
  have hdollar := lower_mem_tables_iff .bare ⟨"a$b".toList, by decide, by decide, by decide⟩
    selectOne hquotes hplain (by decide)
  have hkeyword := lower_mem_tables_iff .doubleQuotes ⟨"as".toList, by decide, by decide, by decide⟩
    selectOne hquotes hplain (by decide)
  have hbound := lower_mem_tables_iff .backticks ⟨"As$".toList, by decide, by decide, by decide⟩
    selectOne hquotes hplain (by decide)
  have hdollarText : "WITH a$b AS (SELECT 1) SELECT * FROM a$b".toList =
      boundStatement (Quoting.bare.write "a$b".toList) selectOne.val := by decide
  have hkeywordText : "WITH \"as\" AS (SELECT 1) SELECT * FROM \"as\"".toList =
      boundStatement (Quoting.doubleQuotes.write "as".toList) selectOne.val := by decide
  have hboundText : "WITH `As$` AS (SELECT 1) SELECT * FROM `As$`".toList =
      boundStatement (Quoting.backticks.write "As$".toList) selectOne.val := by decide
  simp only [tablesOf, hdollarText, hkeywordText, hboundText]
  exact ⟨hdollar.mpr (by decide), hkeyword.mpr (by decide),
    fun h => absurd (hbound.mp h) (by decide)⟩

end SqlReview.Query

import SqlReview.Proofs.Lexical.KeywordIn
import SqlReview.Proofs.Lexical.Whole
import SqlReview.Proofs.Query.FirstClause
import SqlReview.Proofs.Query.Prologue
import SqlReview.Proofs.Search.ExactWords
import SqlReview.Rule.Textual

/-!
# Clauses behind a prologue

Two rules look at one clause of a statement, the first of its kind. In a statement with a prologue
this is a clause of the first body that has one, whatever the main query holds. The metrics, and the
rule on subqueries, look at the main query.
-/

namespace SqlReview.Rule

open SqlReview.Text SqlReview.Lexical SqlReview.Search SqlReview.Query

/-! ### Prologues without comments -/

/-- A text without comments that closes the quoted spans that it opens. -/
def CodeText : Type :=
  { s : List Char // Plain s ∧ Region.code.after s = .code }

/-- A common table `name AS (body)`, with the blanks before and after it. -/
structure CommonTable where
  before : Blanks
  name : BareName
  beforeAs : { w : Blanks // w.val ≠ [] }
  asWord : Spelling "AS"
  beforeBody : Blanks
  body : CodeText
  after : Blanks

/-- What stands before the parenthesis of the body. -/
def CommonTable.head (x : CommonTable) : List Char :=
  x.before.val ++ (x.name.val ++ (x.beforeAs.val.val ++ (x.asWord.val ++ x.beforeBody.val)))

/-- The text of a common table. -/
def CommonTable.text (x : CommonTable) : List Char :=
  x.head ++ '(' :: (x.body.val ++ ')' :: x.after.val)

/-- A prologue of one common table or more, with blanks at its end. -/
structure WithClause where
  withWord : Spelling "WITH"
  gap : { w : Blanks // w.val ≠ [] }
  first : CommonTable
  others : List CommonTable
  last : { w : Blanks // w.val ≠ [] }

namespace WithClause

/-- The common tables of a prologue. -/
def tables (p : WithClause) : List CommonTable :=
  p.first :: p.others

/-- The text of a prologue: its tables have commas between them. -/
def text (p : WithClause) : List Char :=
  p.withWord.val ++ (p.gap.val.val ++ (p.first.text ++
    (p.others.flatMap (fun x => ',' :: x.text) ++ p.last.val.val)))

end WithClause

/-! ### The searched text -/

/-- The text in which the rules look for clauses. -/
def searched (s : List Char) : List Char :=
  upperAscii (blankLiterals (removeComments s))

/-- Whether a statement has a clause that is introduced by the given words. -/
def hasClause (words : List String) (s : List Char) : Bool :=
  holds (.exactWords words) (searched s)

variable {w : List Char}

/-- Text without quotation marks and without the marks that open a comment is searched as it
stands, and apart from what follows it. -/
theorem searched_append (hw : ∀ c ∈ w, isQuote c = false ∧ c ≠ '-' ∧ c ≠ '/') (s : List Char) :
    searched (w ++ s) = upperAscii w ++ searched s := by
  rw [searched, removeComments_append_of_forall hw, blankLiterals,
    blankFrom_unquoted _ fun c hc => (hw c hc).1, upperAscii_append]
  rfl

private theorem searched_cons {c : Char} (hc : isQuote c = false ∧ c ≠ '-' ∧ c ≠ '/')
    (s : List Char) : searched (c :: s) = c.toUpper :: searched s :=
  searched_append (w := [c]) (by simpa using hc) s

/-- A body is searched apart from the parenthesis that closes it and what follows. -/
theorem CodeText.searched_append (t : CodeText) (s : List Char) :
    searched (t.val ++ ')' :: s) = searched t.val ++ ')' :: searched s := by
  have hplain : removeComments (t.val ++ ')' :: s) =
      removeComments t.val ++ removeComments (')' :: s) :=
    removeFrom_append (r := .code) trivial t.val (by simp) (by simp) t.property.2
  have hclose : searched (')' :: s) = ')' :: searched s := searched_cons (by decide) s
  rw [searched, hplain, blankLiterals, (whole_removeComments t.property.2).blankFrom_append,
    upperAscii_append]
  exact congrArg _ hclose

private theorem unmarked_of_isBlank {c : Char} (hc : isBlank c = true) :
    isQuote c = false ∧ c ≠ '-' ∧ c ≠ '/' := by
  refine ⟨isQuote_of_isBlank hc, ?_, ?_⟩ <;>
  · rintro rfl
    exact absurd hc (by decide)

private theorem unmarked_of_isNameChar {c : Char} (hc : isNameChar c = true) :
    isQuote c = false ∧ c ≠ '-' ∧ c ≠ '/' := by
  refine ⟨(ne_of_isNameChar hc).1, ?_, ?_⟩ <;>
  · rintro rfl
    exact absurd hc (by decide)

private theorem unmarked_of_blanks (v : Blanks) :
    ∀ c ∈ v.val, isQuote c = false ∧ c ≠ '-' ∧ c ≠ '/' :=
  fun c hc => unmarked_of_isBlank (List.all_eq_true.mp v.property c hc)

private theorem unmarked_of_spelling {keyword : String} (w : Spelling keyword)
    (hk : ∀ k ∈ keyword.toList, isNameChar k = true) :
    ∀ c ∈ w.val, isQuote c = false ∧ c ≠ '-' ∧ c ≠ '/' :=
  fun c hc => unmarked_of_isNameChar (isNameChar_of_sameText hk w.property c hc)

/-- The head of a table is searched as it stands. -/
theorem CommonTable.unmarked_head (x : CommonTable) :
    ∀ c ∈ x.head, isQuote c = false ∧ c ≠ '-' ∧ c ≠ '/' := by
  intro c hc
  simp only [head, List.mem_append] at hc
  rcases hc with hc | hc | hc | hc | hc
  · exact unmarked_of_blanks x.before c hc
  · exact unmarked_of_isNameChar (x.name.property.2.1 c hc)
  · exact unmarked_of_blanks x.beforeAs.val c hc
  · exact unmarked_of_spelling x.asWord (by decide) c hc
  · exact unmarked_of_blanks x.beforeBody c hc

/-! ### Where the first clause stands -/

/-- Words that can introduce a clause: words of which none stands in a prologue by itself. -/
structure IntroduceClause (words : List String) : Prop where
  areWords : Phrase.AreWords words
  free : ∀ k ∈ words, ∀ w ∈ ["AS", "WITH"], holds (.exactWords [k]) w.toList = false

/-- A table is well-formed as a search for a clause sees it when its name holds none of the words
and its body closes the parentheses that it opens. This matters for bodies with a clause only. -/
structure CommonTable.WellFormed (words : List String) (x : CommonTable) : Prop where
  name_free : ∀ k ∈ words, hasClause [k] x.name.val = false
  body_closed : hasClause words x.body.val = true → ClosesOpened (searched x.body.val)

variable {words : List String} {k : String} {x : CommonTable} {u : List Char}

/-- The words of a prologue are none of these words. -/
theorem IntroduceClause.holds_spelling (h : IntroduceClause words) (hk : k ∈ words)
    {keyword : String} (hkeyword : keyword ∈ ["AS", "WITH"]) (w : Spelling keyword) :
    holds (.exactWords [k]) (upperAscii w.val) = false := by
  have hupper : ∀ w ∈ ["AS", "WITH"], upperAscii w.toList = w.toList := by decide
  rw [upperAscii_eq_of_sameText w.property, hupper keyword hkeyword]
  exact h.free k hk keyword hkeyword

/-- The head of a table holds a word only if the name does. -/
theorem CommonTable.WellFormed.holds_head (hx : x.WellFormed words) (h : IntroduceClause words)
    (hk : k ∈ words) : holds (.exactWords [k]) (upperAscii x.head) = false := by
  have hword := h.areWords.of_mem hk
  have hname : holds (.exactWords [k]) (upperAscii x.name.val) = false := by
    have hsearched := searched_append (w := x.name.val)
      (fun c hc => unmarked_of_isNameChar (x.name.property.2.1 c hc)) []
    have hfree := hx.name_free k hk
    rwa [hasClause, ← List.append_nil x.name.val, hsearched,
      show searched [] = [] from rfl, List.append_nil] at hfree
  have hsplit : upperAscii x.head = x.before.val ++ (upperAscii x.name.val ++
      (x.beforeAs.val.val ++ (upperAscii x.asWord.val ++ x.beforeBody.val))) := by
    simp only [head, upperAscii_append, upperAscii_of_isBlankText x.before.property,
      upperAscii_of_isBlankText x.beforeAs.val.property,
      upperAscii_of_isBlankText x.beforeBody.property]
  rw [hsplit, holds_blanks_append hword.sought.refuses x.before.property,
    holds_word_gap hword x.beforeAs.val.property x.beforeAs.property, hname,
    holds_word_blanks hword x.beforeBody.property, h.holds_spelling hk (by decide) x.asWord]
  rfl

/-- Where no clause begins before a body, the first clause is that of the body, or else that of what
follows. -/
theorem clauseBody?_body (h : IntroduceClause words) (hx : x.WellFormed words)
    (hu : ∀ c ∈ u, isQuote c = false ∧ c ≠ '-' ∧ c ≠ '/')
    (hfree : ∀ k ∈ words, holds (.exactWords [k]) (upperAscii u) = false) (s : List Char) :
    clauseBody? (.exactWords words) (searched (u ++ '(' :: (x.body.val ++ ')' :: s))) =
      (clauseBody? (.exactWords words) (searched x.body.val)).or
        (clauseBody? (.exactWords words) (searched s)) := by
  have hsplit : searched (u ++ '(' :: (x.body.val ++ ')' :: s)) =
      upperAscii u ++ '(' :: (searched x.body.val ++ ')' :: searched s) := by
    have hopen : searched ('(' :: (x.body.val ++ ')' :: s)) =
        '(' :: searched (x.body.val ++ ')' :: s) := searched_cons (by decide) _
    rw [searched_append hu, hopen, x.body.searched_append]
  have hnone : holds (.exactWords words) (upperAscii u) = false := by
    obtain ⟨k, ks, rfl⟩ := List.exists_cons_of_ne_nil h.areWords.1
    exact holds_exactWords_eq_false h.areWords (hfree k (List.mem_cons_self ..))
  rw [hsplit]
  exact clauseBody?_parens (h.areWords.avoids (by decide) (by decide))
    (h.areWords.avoids (by decide) (by decide)) h.areWords.sought.moves hnone hx.body_closed _

/-- Blanks are passed over. -/
theorem clauseBody?_blanks (h : IntroduceClause words) (v : Blanks) (s : List Char) :
    clauseBody? (.exactWords words) (searched (v.val ++ s)) =
      clauseBody? (.exactWords words) (searched s) := by
  rw [searched_append (unmarked_of_blanks v), upperAscii_of_isBlankText v.property,
    clauseBody?_blanks_append h.areWords.sought.refuses v.property]

/-- The first clause of a statement with tables after commas is that of the first body that has
one. -/
theorem clauseBody?_tables (h : IntroduceClause words) (xs : List CommonTable)
    (hxs : ∀ x ∈ xs, x.WellFormed words) (s : List Char) :
    clauseBody? (.exactWords words) (searched (xs.flatMap (fun x => ',' :: x.text) ++ s)) =
      (xs.findSome? fun x => clauseBody? (.exactWords words) (searched x.body.val)).or
        (clauseBody? (.exactWords words) (searched s)) := by
  induction xs with
  | nil => rfl
  | cons x xs ih =>
    have hx := hxs x (List.mem_cons_self ..)
    have hcomma : ∀ c ∈ ',' :: x.head, isQuote c = false ∧ c ≠ '-' ∧ c ≠ '/' := by
      intro c hc
      rcases List.mem_cons.mp hc with rfl | hc
      · decide
      · exact x.unmarked_head c hc
    have hfree : ∀ k ∈ words,
        holds (.exactWords [k]) (upperAscii (',' :: x.head)) = false := by
      intro k hk
      have hmark := holds_word_mark (h.areWords.of_mem hk) (m := ',') (by decide) []
        (upperAscii x.head)
      rwa [holds_nil, hx.holds_head h hk] at hmark
    have hsplit : (x :: xs).flatMap (fun x => ',' :: x.text) ++ s =
        ',' :: x.head ++ '(' :: (x.body.val ++ ')' :: (x.after.val ++
          (xs.flatMap (fun x => ',' :: x.text) ++ s))) := by
      simp [CommonTable.text]
    rw [hsplit, clauseBody?_body h hx hcomma hfree, clauseBody?_blanks h,
      ih fun y hy => hxs y (List.mem_cons_of_mem x hy), List.findSome?_cons]
    cases clauseBody? (.exactWords words) (searched x.body.val) <;> rfl

namespace WithClause

/-- The bodies of the tables, in their order. -/
def bodies (p : WithClause) : List (List Char) :=
  p.tables.map (·.body.val)

variable {p : WithClause}

/-- The first clause of a statement with a prologue is that of the first text that has one: of the
bodies, one after the other, and then of what follows the prologue. -/
theorem clauseBody?_text (h : IntroduceClause words) (hp : ∀ x ∈ p.tables, x.WellFormed words)
    (m : List Char) :
    clauseBody? (.exactWords words) (searched (p.text ++ m)) =
      (p.bodies ++ [m]).findSome? fun q => clauseBody? (.exactWords words) (searched q) := by
  have hfirst := hp p.first (List.mem_cons_self ..)
  have hothers := fun x hx => hp x (List.mem_cons_of_mem p.first hx)
  have hunmarked : ∀ c ∈ p.withWord.val ++ (p.gap.val.val ++ p.first.head),
      isQuote c = false ∧ c ≠ '-' ∧ c ≠ '/' := by
    intro c hc
    simp only [List.mem_append] at hc
    rcases hc with hc | hc | hc
    · exact unmarked_of_spelling p.withWord (by decide) c hc
    · exact unmarked_of_blanks p.gap.val c hc
    · exact p.first.unmarked_head c hc
  have hfree : ∀ k ∈ words, holds (.exactWords [k])
      (upperAscii (p.withWord.val ++ (p.gap.val.val ++ p.first.head))) = false := by
    intro k hk
    have hsplit : upperAscii (p.withWord.val ++ (p.gap.val.val ++ p.first.head)) =
        upperAscii p.withWord.val ++ (p.gap.val.val ++ upperAscii p.first.head) := by
      rw [upperAscii_append, upperAscii_append, upperAscii_of_isBlankText p.gap.val.property]
    rw [hsplit, holds_word_gap (h.areWords.of_mem hk) p.gap.val.property p.gap.property,
      h.holds_spelling hk (by decide) p.withWord, hfirst.holds_head h hk]
    rfl
  have hsplit : p.text ++ m = p.withWord.val ++ (p.gap.val.val ++ p.first.head) ++
      '(' :: (p.first.body.val ++ ')' :: (p.first.after.val ++
        (p.others.flatMap (fun x => ',' :: x.text) ++ (p.last.val.val ++ m)))) := by
    simp [text, CommonTable.text]
  rw [hsplit, clauseBody?_body h hfirst hunmarked hfree, clauseBody?_blanks h,
    clauseBody?_tables h p.others hothers, clauseBody?_blanks h p.last.val]
  simp only [bodies, tables, List.map_cons, List.cons_append, List.findSome?_cons,
    List.findSome?_append, List.findSome?_map]
  cases clauseBody? (.exactWords words) (searched p.first.body.val) with
  | some body => rfl
  | none =>
    rw [Option.none_or]
    cases clauseBody? (.exactWords words) (searched m) <;> rfl

end WithClause

/-! ### The rules -/

/-- The rules that look at one clause, with the words that introduce it. -/
def clauseRules : List (Rule × List String) :=
  [(functionOnColumn, ["WHERE"]), (groupByExpression, ["GROUP", "BY"])]

variable {r : Rule × List String}

private theorem introduceClause_of_mem (hr : r ∈ clauseRules) : IntroduceClause r.2 := by
  simp only [clauseRules, List.mem_cons, List.not_mem_nil, or_false] at hr
  rcases hr with rfl | rfl
  · exact ⟨⟨by decide, by decide⟩, by decide +kernel⟩
  · exact ⟨⟨by decide, by decide⟩, by decide +kernel⟩

private theorem exists_check_eq (hr : r ∈ clauseRules) : ∃ find : List Char → Option Finding,
    ∀ s metrics, r.1.check (Subject.of s metrics) =
      (clauseBody? (.exactWords r.2) (searched s)).bind find := by
  simp only [clauseRules, List.mem_cons, List.not_mem_nil, or_false] at hr
  rcases hr with rfl | rfl
  · exact ⟨_, fun _ _ => rfl⟩
  · exact ⟨_, fun _ _ => rfl⟩

/-- What is found first in a list is what is found in the first member in which anything is. -/
theorem findSome?_eq_find?_bind {α β : Type} (f : α → Option β) (l : List α) :
    l.findSome? f = (l.find? fun x => (f x).isSome).bind f := by
  induction l with
  | nil => rfl
  | cons x l ih =>
    rw [List.findSome?_cons, List.find?_cons]
    cases hx : f x with
    | none => exact ih
    | some y => exact hx.symm

/-- The rules on filtered columns and on grouping keys find in a statement with a prologue what they
find in the first text that has a clause of their kind: the first of the bodies, in their order, or
the main query if no body has one. So a clause in a body takes the place of the clause of the main
query, and what they find in the main query by itself goes unseen. -/
theorem check_behind_withClause (p : WithClause) (m : List Char) (a b : Metrics) :
    ∀ r ∈ clauseRules, (∀ x ∈ p.tables, x.WellFormed r.2) →
      r.1.check (Subject.of (p.text ++ m) a) =
        ((p.bodies ++ [m]).find? (hasClause r.2)).bind fun q => r.1.check (Subject.of q b) := by
  intro r hr hp
  obtain ⟨find, hfind⟩ := exists_check_eq hr
  have hclause : (fun q => (clauseBody? (.exactWords r.2) (searched q)).isSome) = hasClause r.2 :=
    funext fun q => isSome_clauseBody? _ _
  simp only [hfind]
  rw [WithClause.clauseBody?_text (introduceClause_of_mem hr) hp, findSome?_eq_find?_bind, hclause,
    Option.bind_assoc]

/-- A prologue of one table with a filter in its body. -/
theorem exists_filteredPrologue : ∃ p : WithClause,
    p.text = "WITH c AS (SELECT a FROM t WHERE a = 1) ".toList ∧
      p.bodies = ["SELECT a FROM t WHERE a = 1".toList] ∧
      ∀ x ∈ p.tables, x.WellFormed ["WHERE"] := by
  refine ⟨
    { withWord := ⟨"WITH".toList, by decide⟩
      gap := ⟨⟨[' '], by decide⟩, by decide⟩
      first :=
        { before := ⟨[], rfl⟩
          name := ⟨['c'], by decide⟩
          beforeAs := ⟨⟨[' '], by decide⟩, by decide⟩
          asWord := ⟨"AS".toList, by decide⟩
          beforeBody := ⟨[' '], by decide⟩
          body := ⟨"SELECT a FROM t WHERE a = 1".toList, by rw [Plain]; decide +kernel, by decide⟩
          after := ⟨[], rfl⟩ }
      others := []
      last := ⟨⟨[' '], by decide⟩, by decide⟩ }, by decide, rfl, ?_⟩
  intro x hx
  obtain rfl := List.mem_singleton.mp hx
  exact ⟨by decide +kernel, fun _ => by decide +kernel⟩

/-- The filter in the body hides the filter of the main query. -/
theorem functionOnColumn_behind_filter :
    let p := "WITH c AS (SELECT a FROM t WHERE a = 1) ".toList
    let m := "SELECT a FROM c WHERE toDate(ts) = today()".toList
    (functionOnColumn.check (Subject.of m {})).isSome = true ∧
      functionOnColumn.check (Subject.of (p ++ m) {}) = none := by
  intro p m
  obtain ⟨prologue, htext, hbodies, hformed⟩ := exists_filteredPrologue
  have hcheck := check_behind_withClause prologue m {} {} (functionOnColumn, ["WHERE"])
    (List.mem_cons_self ..) hformed
  rw [htext, hbodies] at hcheck
  refine ⟨by decide +kernel, hcheck.trans ?_⟩
  decide +kernel

end SqlReview.Rule

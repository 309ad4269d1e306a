import SqlReview.Proofs.Query.Span
import SqlReview.Proofs.Text.Tidy

/-!
# Scans over a tidy text

The scans go through a text character by character, carry along how many parentheses are open and
whether a name goes on, and stop at keywords. A blank changes nothing of this but that it ends a
name, so a scan stops in the tidy text where it stops in the text.
-/

namespace SqlReview.Query

open SqlReview.Text SqlReview.Lexical

variable (f : Folding)

/-! ### Keywords -/

/-- Letters are dropped before a text that begins with none of them as where nothing follows. -/
theorem dropLetters?_append_of_head? {ks z : List Char}
    (hz : ∀ k ∈ ks, z.head?.any (sameLetter k) = false) (s : List Char) :
    dropLetters? ks (s ++ z) = (dropLetters? ks s).map (· ++ z) := by
  induction ks generalizing s with
  | nil => rfl
  | cons k ks ih =>
    cases s with
    | nil =>
      cases z with
      | nil => rfl
      | cons c z =>
        have hc : sameLetter k c = false := hz k (List.mem_cons_self ..)
        simp [dropLetters?, hc]
    | cons c s =>
      rw [List.cons_append, dropLetters?, dropLetters?]
      split
      · exact ih (fun k' hk' => hz k' (List.mem_cons_of_mem k hk')) s
      · rfl

/-- A letter of a name is no character of another kind. -/
theorem sameLetter_of_isNameChar {k c : Char} (hk : isNameChar k = true)
    (hc : isNameChar c = false) : sameLetter k c = false := by
  rw [Bool.eq_false_iff]
  intro h
  rw [isNameChar_eq_of_sameLetter h, hc] at hk
  exact Bool.false_ne_true hk

private theorem startsInName_append {z : List Char} (hz : startsInName z = false) (u : List Char) :
    startsInName (u ++ z) = startsInName u := by
  cases u with
  | nil => exact hz
  | cons c u => rfl

/-- A keyword is followed by what follows it where nothing else follows, when no name goes on. -/
theorem afterKeyword?_append_of_startsInName {keyword : String} {z : List Char}
    (hk : ∀ k ∈ keyword.toList, isNameChar k = true) (hz : startsInName z = false)
    (u : List Char) : afterKeyword? keyword (u ++ z) = (afterKeyword? keyword u).map (· ++ z) := by
  have hletters : ∀ k ∈ keyword.toList, z.head?.any (sameLetter k) = false := by
    intro k h
    cases z with
    | nil => rfl
    | cons c z => exact sameLetter_of_isNameChar (hk k h) hz
  rw [afterKeyword?, afterKeyword?, dropLetters?_append_of_head? hletters]
  cases dropLetters? keyword.toList u with
  | none => rfl
  | some rest =>
    rw [Option.map_some, Option.filter_some, Option.filter_some, startsInName_append hz]
    split <;> rfl

private theorem dropLetters?_tidy {ks : List Char} (hk : ∀ k ∈ ks, isBlank k = false)
    (s : List Char) : dropLetters? ks (tidy f s) = (dropLetters? ks s).map (tidy f) := by
  induction ks generalizing s with
  | nil => rfl
  | cons k ks ih =>
    have hfirst : isBlank k = false := hk k (List.mem_cons_self ..)
    cases s with
    | nil => rfl
    | cons c s =>
      by_cases hc : isBlank c = true
      · rw [tidy_blank_cons f hc, dropLetters?, dropLetters?,
          sameLetter_of_isBlank hfirst rfl, sameLetter_of_isBlank hfirst hc]
        rfl
      · rw [tidy_cons f (by simpa using hc), dropLetters?, dropLetters?, f.sameLetter_of]
        split
        · exact ih (fun k' hk' => hk k' (List.mem_cons_of_mem k hk')) s
        · rfl

/-- A tidy text begins with a name where the text does. -/
@[simp] theorem startsInName_tidy (s : List Char) : startsInName (tidy f s) = startsInName s :=
  any_head?_tidy f (solid_isNameChar f).tidyChar s

/-- What follows a keyword in a tidy text is what follows it in the text, tidied. -/
theorem afterKeyword?_tidy {keyword : String} (hk : IsKeyword keyword) (s : List Char) :
    afterKeyword? keyword (tidy f s) = (afterKeyword? keyword s).map (tidy f) := by
  rw [afterKeyword?, afterKeyword?, dropLetters?_tidy f hk.2]
  cases dropLetters? keyword.toList s with
  | none => rfl
  | some rest =>
    rw [Option.map_some, Option.filter_some, Option.filter_some, startsInName_tidy]
    split <;> rfl

/-- A tidy text begins with a keyword where the text does. -/
theorem startsWith_tidy {keyword : String} (hk : IsKeyword keyword) (s : List Char) :
    startsWith keyword (tidy f s) = startsWith keyword s := by
  rw [startsWith, startsWith, afterKeyword?_tidy f hk, Option.isSome_map]

/-- A tidy text begins with one of several keywords where the text does. -/
theorem startsWithAny_tidy {keywords : List String} (hk : ∀ k ∈ keywords, IsKeyword k)
    (s : List Char) :
    startsWithAny keywords (tidy f s) = startsWithAny keywords s := by
  induction keywords with
  | nil => rfl
  | cons keyword keywords ih =>
    have htail := ih fun k hk' => hk k (List.mem_cons_of_mem keyword hk')
    unfold startsWithAny at htail ⊢
    rw [List.any_cons, List.any_cons, htail, startsWith_tidy f (hk keyword (List.mem_cons_self ..))]

/-- No keyword begins with a blank. -/
theorem startsWith_blank {keyword : String} (hk : IsKeyword keyword) {c : Char}
    (hc : isBlank c = true) (s : List Char) : startsWith keyword (c :: s) = false := by
  obtain ⟨k, ks, hks⟩ := List.exists_cons_of_ne_nil hk.1
  have hfirst : isBlank k = false := hk.2 k (by rw [hks]; exact List.mem_cons_self ..)
  rw [startsWith, afterKeyword?, hks, dropLetters?, sameLetter_of_isBlank hfirst hc]
  rfl

/-! ### Characters that a scan asks for -/

/-- A blank belongs to no name. -/
theorem isNameChar_of_isBlank {c : Char} (hc : isBlank c = true) : isNameChar c = false :=
  (solid_isNameChar .none).blank c hc

/-! ### Quoted spans -/

/-- A span goes on after a folded character as after the character. -/
theorem next_of {q : OpenSpan} (hq : isQuote q.mark = true) (c : Char) :
    q.next (f.of c) = q.next c := by
  have hslash : (f.of c == backslash) = (c == backslash) := f.of_beq (by decide) c
  rw [OpenSpan.next, OpenSpan.next, hslash, f.of_beq (isMark_of_isQuote hq)]

/-- A span goes on after a blank, and no escape goes beyond it. -/
theorem next_blank {q : OpenSpan} (hq : isQuote q.mark = true) {c : Char} (hc : isBlank c = true) :
    q.next c = some { mark := q.mark } := by
  have hslash : (c == backslash) = false := beq_of_isBlank hc (by decide)
  have hmark : (c == q.mark) = false := beq_of_isBlank hc (isBlank_of_isQuote hq)
  obtain ⟨m, escaped⟩ := q
  cases escaped with
  | true => rfl
  | false => simp only [OpenSpan.next, hslash, hmark, Bool.false_eq_true, if_false]

private theorem rest?_blank {q : OpenSpan} (hq : isQuote q.mark = true) {c : Char}
    (hc : isBlank c = true) (s : List Char) :
    q.rest? (c :: s) = OpenSpan.rest? { mark := q.mark } s := by
  rw [OpenSpan.rest?, next_blank hq hc]

/-- A span ends in the tidy text where it ends in the text. -/
theorem rest?_tidy {q : OpenSpan} (hq : isQuote q.mark = true) (s : List Char) :
    q.rest? (tidy f s) = (q.rest? s).map (tidy f) := by
  induction s generalizing q with
  | nil => rfl
  | cons c s ih =>
    have hmark : isQuote (OpenSpan.mark { mark := q.mark }) = true := hq
    by_cases hc : isBlank c = true
    · rw [rest?_blank hq hc]
      by_cases hs : startsBlank s = true
      · obtain ⟨d, t, rfl, hd⟩ := exists_of_startsBlank hs
        rw [tidy_blank_of_startsBlank f hc hs, ih hq, rest?_blank hq hd, rest?_blank hmark hd]
      · rw [tidy_blank f hc (by simpa using hs), rest?_blank hq rfl]
        exact ih hmark
    · rw [tidy_cons f (by simpa using hc), OpenSpan.rest?, OpenSpan.rest?, next_of f hq]
      cases hn : q.next c with
      | none => rfl
      | some q' =>
        apply ih
        rw [mark_next hn]
        exact hq

/-! ### The main query -/

private theorem isKeyword_select : IsKeyword "SELECT" := by decide

/-- `FROM` is a keyword. -/
theorem isKeyword_from : IsKeyword "FROM" := by decide

/-- A blank ends a name and does nothing else. -/
theorem selectFrom_blank {c : Char} (hc : isBlank c = true) (d : Nat) (b : Bool) (s : List Char) :
    selectFrom d none b (c :: s) = selectFrom d none false s := by
  have hkey := startsWith_blank isKeyword_select hc s
  rw [selectFrom, isQuote_of_isBlank hc, isNameChar_of_isBlank hc, hkey,
    beq_of_isBlank hc (by decide), beq_of_isBlank hc (by decide)]
  simp

/-- The first `SELECT` outside of parentheses and spans is found in the tidy text. -/
theorem selectFrom_tidy (d : Nat) (b : Bool) (s : List Char) :
    selectFrom d none b (tidy f s) = (selectFrom d none b s).map (tidy f) := by
  induction s using span_induction generalizing d b with
  | nil => rfl
  | quote m s hm ih =>
    have hspan : isQuote (OpenSpan.mark { mark := m }) = true := hm
    rw [tidy_cons f (isBlank_of_isQuote hm), f.of_eq_self (isMark_of_isQuote hm), selectFrom,
      selectFrom, if_pos hm, if_pos hm, selectFrom_span hspan, selectFrom_span hspan,
      rest?_tidy f hspan]
    cases ht : OpenSpan.rest? { mark := m } s with
    | none => rfl
    | some t => exact ih t ht d false
  | char c s hc ih =>
    by_cases hblank : isBlank c = true
    · rw [selectFrom_blank hblank]
      by_cases hnext : startsBlank s = true
      · obtain ⟨e, t, rfl, he⟩ := exists_of_startsBlank hnext
        rw [tidy_blank_of_startsBlank f hblank hnext, ih d b, selectFrom_blank he,
          selectFrom_blank he]
      · rw [tidy_blank f hblank (by simpa using hnext), selectFrom_blank rfl]
        exact ih d false
    · have hsolid : isBlank c = false := by simpa using hblank
      have hkey := startsWith_tidy f isKeyword_select (c :: s)
      rw [tidy_cons f hsolid] at hkey ⊢
      rw [selectFrom, selectFrom, f.isQuote_of, f.isNameChar_of, hkey,
        f.of_beq (k := '(') (by decide), f.of_beq (k := ')') (by decide), hc,
        if_neg Bool.false_ne_true, if_neg Bool.false_ne_true]
      split
      · exact ih _ _
      · split
        · exact ih _ _
        · split
          · rw [Option.map_some, tidy_cons f hsolid]
          · exact ih _ _

/-- A tidy text has a prologue where the text has one. -/
theorem hasPrologue_tidy (s : List Char) : hasPrologue (tidy f s) = hasPrologue s := by
  rw [hasPrologue, hasPrologue, trimStart_tidy, startsWith_tidy f (by decide)]

/-- The main query of a tidy text is the tidy main query. -/
theorem mainQuery_tidy (s : List Char) : mainQuery (tidy f s) = tidy f (mainQuery s) := by
  rw [mainQuery, mainQuery, hasPrologue_tidy, selectFrom_tidy]
  split
  · cases selectFrom 0 none false s <;> rfl
  · rfl

/-! ### Subqueries -/

/-- A blank nests no subquery. -/
theorem subqueryDepthFrom_blank {c : Char} (hc : isBlank c = true) (d : Nat) (s : List Char) :
    subqueryDepthFrom d none (c :: s) = subqueryDepthFrom d none s := by
  rw [subqueryDepthFrom, isQuote_of_isBlank hc, beq_of_isBlank hc (by decide),
    beq_of_isBlank hc (by decide)]
  simp

/-- Subqueries are nested as deeply in the tidy text. -/
theorem subqueryDepthFrom_tidy (d : Nat) (s : List Char) :
    subqueryDepthFrom d none (tidy f s) = subqueryDepthFrom d none s := by
  induction s using span_induction generalizing d with
  | nil => rfl
  | quote m s hm ih =>
    have hspan : isQuote (OpenSpan.mark { mark := m }) = true := hm
    rw [tidy_cons f (isBlank_of_isQuote hm), f.of_eq_self (isMark_of_isQuote hm),
      subqueryDepthFrom, subqueryDepthFrom, if_pos hm, if_pos hm, subqueryDepthFrom_span,
      subqueryDepthFrom_span, rest?_tidy f hspan]
    cases ht : OpenSpan.rest? { mark := m } s with
    | none => rfl
    | some t => exact ih t ht d
  | char c s hc ih =>
    by_cases hblank : isBlank c = true
    · rw [subqueryDepthFrom_blank hblank]
      by_cases hnext : startsBlank s = true
      · rw [tidy_blank_of_startsBlank f hblank hnext]
        exact ih d
      · rw [tidy_blank f hblank (by simpa using hnext), subqueryDepthFrom_blank rfl]
        exact ih d
    · rw [tidy_cons f (by simpa using hblank), subqueryDepthFrom, subqueryDepthFrom, f.isQuote_of,
        f.of_beq (k := '(') (by decide), f.of_beq (k := ')') (by decide), trimStart_tidy,
        startsWith_tidy f isKeyword_select, hc, if_neg Bool.false_ne_true,
        if_neg Bool.false_ne_true]
      simp only [ih]

/-- Subqueries are nested as deeply in a tidy text. -/
theorem subqueryDepth_tidy (s : List Char) : subqueryDepth (tidy f s) = subqueryDepth s :=
  subqueryDepthFrom_tidy f 0 s

end SqlReview.Query

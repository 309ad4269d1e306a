import SqlReview.Proofs.Lexical.Literal
import SqlReview.Query.Structure

/-!
# Scans that follow quoted spans by themselves

The main query and the depth of subqueries are read from a text that still holds its literals, with
a span and a backslash of their own to follow. Both scans leave a span where blanking leaves it, so
blanking the text first makes no difference to either.
-/

namespace SqlReview.Query

open SqlReview.Text SqlReview.Lexical

/-! ### Leaving a span -/

/-- The text after an open span, if its mark comes. -/
def OpenSpan.rest? (q : OpenSpan) : List Char → Option (List Char)
  | [] => none
  | c :: s =>
    match q.next c with
    | none => some s
    | some q' => q'.rest? s

/-- A span that goes on keeps its mark. -/
theorem mark_next {q q' : OpenSpan} {c : Char} (h : q.next c = some q') : q'.mark = q.mark := by
  unfold OpenSpan.next at h
  split at h
  · obtain rfl := Option.some.inj h
    rfl
  · split at h
    · obtain rfl := Option.some.inj h
      rfl
    · split at h
      · exact absurd h (by simp)
      · obtain rfl := Option.some.inj h
        rfl

/-- A span ends at its mark only. -/
theorem eq_mark_of_next {q : OpenSpan} {c : Char} (h : q.next c = none) : c = q.mark := by
  unfold OpenSpan.next at h
  split at h
  · exact absurd h (by simp)
  · split at h
    · exact absurd h (by simp)
    · split at h
      · next hc => exact beq_iff_eq.mp hc
      · exact absurd h (by simp)

private theorem length_rest? {q : OpenSpan} {s t : List Char} (h : q.rest? s = some t) :
    t.length < s.length := by
  induction s generalizing q with
  | nil => exact absurd h (by simp [OpenSpan.rest?])
  | cons c s ih =>
    rw [OpenSpan.rest?] at h
    split at h
    · obtain rfl := Option.some.inj h
      exact Nat.lt_succ_self _
    · exact Nat.lt_succ_of_lt (ih h)

/-- A text is read by its spans, each with the text that follows it, and by the characters outside
of them. -/
@[elab_as_elim]
theorem span_induction {motive : List Char → Prop} (nil : motive [])
    (quote : ∀ m s, isQuote m = true →
      (∀ t, OpenSpan.rest? { mark := m } s = some t → motive t) → motive (m :: s))
    (char : ∀ c s, isQuote c = false → motive s → motive (c :: s)) (s : List Char) : motive s := by
  induction hn : s.length using Nat.strongRecOn generalizing s with
  | ind n ih =>
    cases s with
    | nil => exact nil
    | cons c s =>
      rw [List.length_cons] at hn
      by_cases hc : isQuote c = true
      · refine quote c s hc fun t ht => ih t.length ?_ t rfl
        have := length_rest? ht
        omega
      · exact char c s (by simpa using hc) (ih s.length (by omega) s rfl)

/-- A quotation mark belongs to no name. -/
theorem isNameChar_of_isQuote {c : Char} (h : isQuote c = true) : isNameChar c = false := by
  simp only [isQuote, Bool.or_eq_true, beq_iff_eq] at h
  rcases h with (rfl | rfl) | rfl <;> decide

/-- The main query of a text from inside of a span is that of the text after the span. -/
theorem selectFrom_span {q : OpenSpan} (h : isQuote q.mark = true) (d : Nat) (b : Bool)
    (s : List Char) : selectFrom d (some q) b s = (q.rest? s).bind (selectFrom d none false) := by
  induction s generalizing q b with
  | nil => rfl
  | cons c s ih =>
    rw [selectFrom, OpenSpan.rest?]
    cases hn : q.next c with
    | none => rw [eq_mark_of_next hn, isNameChar_of_isQuote h, Option.bind_some]
    | some q' =>
      rw [ih]
      rw [mark_next hn]
      exact h

/-- The depth of a text from inside of a span is that of the text after the span. -/
theorem subqueryDepthFrom_span (q : OpenSpan) (d : Nat) (s : List Char) :
    subqueryDepthFrom d (some q) s = (q.rest? s).elim d (subqueryDepthFrom d none) := by
  induction s generalizing q with
  | nil => rfl
  | cons c s ih =>
    rw [subqueryDepthFrom, OpenSpan.rest?]
    cases q.next c with
    | none => rfl
    | some q' => exact ih q'

/-! ### Leaving a blanked span -/

variable (filled : Char → Bool)

/-- A span goes on over a character that does not end it. -/
theorem rest?_cons {q q' : OpenSpan} {c : Char} (h : q.next c = some q') (s : List Char) :
    q.rest? (c :: s) = q'.rest? s := by
  rw [OpenSpan.rest?, h]

/-- A span goes on over a character that is neither its mark nor a backslash. -/
theorem next_of_ne {m c : Char} (h1 : c ≠ m) (h2 : c ≠ backslash) :
    OpenSpan.next { mark := m } c = some { mark := m } := by
  simp [OpenSpan.next, h1, h2]

/-- A span ends at its mark. -/
theorem next_mark {m : Char} (h : isQuote m = true) : OpenSpan.next { mark := m } m = none := by
  have hm : m ≠ backslash := by
    rintro rfl
    exact absurd h (by decide)
  simp [OpenSpan.next, hm]

/-- Fillers are passed over. -/
theorem rest?_fillers {m : Char} (h : isQuote m = true) (n : Nat) (s : List Char) :
    OpenSpan.rest? { mark := m } (List.replicate n filler ++ s) =
      OpenSpan.rest? { mark := m } s := by
  obtain ⟨h1, h2⟩ := filler_ne h
  induction n with
  | zero => rfl
  | succ n ih =>
    rw [List.replicate_succ, List.cons_append, rest?_cons (next_of_ne h1 h2), ih]

/-- A backslash and the character that it takes with it are passed over, blanked or not. -/
theorem rest?_escape {m : Char} (h : isQuote m = true) (f : Bool) (c : Char) (s : List Char) :
    OpenSpan.rest? { mark := m } (content f '\\' ++ content f c ++ s) =
      OpenSpan.rest? { mark := m } s := by
  cases f with
  | true => simp only [content, if_pos, List.append_assoc, rest?_fillers h]
  | false => rfl

/-- A character that is neither the mark nor a backslash is passed over, blanked or not. -/
theorem rest?_content {m c : Char} (h : isQuote m = true) (h1 : c ≠ m) (h2 : c ≠ backslash)
    (f : Bool) (s : List Char) :
    OpenSpan.rest? { mark := m } (content f c ++ s) = OpenSpan.rest? { mark := m } s := by
  cases f with
  | true => simp only [content, if_pos, rest?_fillers h]
  | false => exact rest?_cons (next_of_ne h1 h2) s

/-- A backslash at the end of a text does not end a span, blanked or not. -/
theorem rest?_backslash {m : Char} (h : isQuote m = true) (f : Bool) :
    OpenSpan.rest? { mark := m } (content f backslash) = none := by
  cases f with
  | true =>
    have hs := rest?_fillers h backslash.utf8Size []
    rw [List.append_nil] at hs
    exact hs
  | false => rfl

/-- A span is left at the same place of a blanked text. -/
theorem rest?_blankFrom {m : Char} (h : isQuote m = true) (s : List Char) :
    OpenSpan.rest? { mark := m } (blankFrom filled (some m) s) =
      (OpenSpan.rest? { mark := m } s).map (blankFrom filled none) := by
  generalize hmark : some m = mark
  fun_induction blankFrom filled mark s with
  | case1 mark => rfl
  | case2 c s ih => exact absurd hmark (by simp)
  | case3 mark c s ih =>
    obtain rfl := Option.some.inj hmark
    rw [rest?_escape h, ih rfl]
    rfl
  | case4 mark s hc ih =>
    obtain rfl := Option.some.inj hmark
    rw [OpenSpan.rest?, OpenSpan.rest?, next_mark h]
    rfl
  | case5 mark c s hc hm ih =>
    obtain rfl := Option.some.inj hmark
    by_cases hb : c = backslash
    · subst hb
      obtain rfl := eq_nil_of_backslash hc rfl
      rw [blankFrom_nil, List.append_nil, rest?_backslash h]
      rfl
    · rw [rest?_content h hm hb, ih rfl, rest?_cons (next_of_ne hm hb)]

/-! ### Scans over a blanked text -/

/-- The first `SELECT` outside of parentheses and spans is found at the same place of a blanked
text. -/
theorem selectFrom_blankFrom (d : Nat) (b : Bool) (s : List Char) :
    selectFrom d none b (blankFrom filled none s) =
      (selectFrom d none b s).map (blankFrom filled none) := by
  induction s using span_induction generalizing d b with
  | nil => rfl
  | quote m s hm ih =>
    have hspan : isQuote (OpenSpan.mark { mark := m }) = true := hm
    rw [blankFrom, if_pos hm, selectFrom, selectFrom, if_pos hm, if_pos hm, selectFrom_span hspan,
      selectFrom_span hspan, rest?_blankFrom filled hm]
    cases ht : OpenSpan.rest? { mark := m } s with
    | none => rfl
    | some t => exact ih t ht d false
  | char c s hc ih =>
    have hletters : "SELECT".toList.any isQuote = false := by decide
    have hkey := startsWith_blankFrom filled hletters (c :: s)
    rw [blankFrom_cons filled s hc] at hkey ⊢
    rw [selectFrom, selectFrom, hc, if_neg Bool.false_ne_true, if_neg Bool.false_ne_true, hkey]
    split
    · exact ih _ _
    · split
      · exact ih _ _
      · split
        · rw [Option.map_some, blankFrom_cons filled s hc]
        · exact ih _ _

/-- A text has a prologue when its blanked form has one. -/
theorem hasPrologue_blankFrom (s : List Char) :
    hasPrologue (blankFrom filled none s) = hasPrologue s := by
  rw [hasPrologue, hasPrologue, trimStart_blankFrom, startsWith_blankFrom filled (by decide)]

/-- The main query of a blanked text is the blanked main query. -/
theorem mainQuery_blankFrom (s : List Char) :
    mainQuery (blankFrom filled none s) = blankFrom filled none (mainQuery s) := by
  rw [mainQuery, mainQuery, hasPrologue_blankFrom, selectFrom_blankFrom]
  split
  · cases selectFrom 0 none false s <;> rfl
  · rfl

/-- Subqueries are nested as deeply in a blanked text. -/
theorem subqueryDepthFrom_blankFrom (d : Nat) (s : List Char) :
    subqueryDepthFrom d none (blankFrom filled none s) = subqueryDepthFrom d none s := by
  induction s using span_induction generalizing d with
  | nil => rfl
  | quote m s hm ih =>
    rw [blankFrom, if_pos hm, subqueryDepthFrom, subqueryDepthFrom, if_pos hm, if_pos hm,
      subqueryDepthFrom_span, subqueryDepthFrom_span, rest?_blankFrom filled hm]
    cases ht : OpenSpan.rest? { mark := m } s with
    | none => rfl
    | some t => exact ih t ht d
  | char c s hc ih =>
    rw [blankFrom_cons filled s hc, subqueryDepthFrom, subqueryDepthFrom, hc,
      if_neg Bool.false_ne_true, if_neg Bool.false_ne_true, trimStart_blankFrom,
      startsWith_blankFrom filled (by decide)]
    simp only [ih]

/-- Blanking the literals of a text does not change how deeply its subqueries are nested. -/
theorem subqueryDepth_blankFrom (s : List Char) :
    subqueryDepth (blankFrom filled none s) = subqueryDepth s :=
  subqueryDepthFrom_blankFrom filled 0 s

end SqlReview.Query

import SqlReview.Proofs.Lexical.Literal
import SqlReview.Proofs.Lexical.Region
import SqlReview.Proofs.Text.Tidy

/-!
# Layout

What may stand between two tokens: blanks, block comments that are closed, and line comments that a
line feed ends. When comments are removed, blanks are left of a layout, and the text on either side
is read as if it stood there alone. Blanking literals does not change this.
-/

namespace SqlReview.Lexical

open SqlReview.Text

/-- Blanks, closed block comments and line comments that a line feed ends. -/
inductive Layout : List Char → Prop
  | nil : Layout []
  | blank {c : Char} {s : List Char} : isBlank c = true → Layout s → Layout (c :: s)
  | blockComment {body s : List Char} : ¬ ['*', '/'] <:+: body → Layout s →
      Layout ('/' :: '*' :: (body ++ '*' :: '/' :: s))
  | lineComment {body s : List Char} : '\n' ∉ body → Layout s →
      Layout ('-' :: '-' :: (body ++ '\n' :: s))

/-- A layout that begins with a blank. -/
structure LayoutRun (r : List Char) : Prop where
  starts : startsBlank r = true
  layout : Layout r

/-! ### Removing comments -/

/-- A blank of code stays. -/
theorem removeFrom_blank {c : Char} (hc : isBlank c = true) (s : List Char) :
    removeFrom .code (c :: s) = c :: removeFrom .code s := by
  have hopens : ¬ opensComment c s := by
    rintro (⟨rfl, -⟩ | ⟨rfl, -⟩)
    · exact absurd hc (by decide)
    · exact absurd hc (by decide)
  have hquote : ¬ isQuote c = true := by
    rw [isQuote_of_isBlank hc]
    decide
  rw [removeFrom_code_cons hopens, Region.afterCode, if_neg hquote]

private theorem removeFrom_blockComment_append {body : List Char} (h : ¬ ['*', '/'] <:+: body)
    (s : List Char) :
    removeFrom .blockComment (body ++ '*' :: '/' :: s) = ' ' :: removeFrom .code s := by
  induction body with
  | nil => rfl
  | cons c body ih =>
    have hbody : ¬ ['*', '/'] <:+: body := fun hb => h (hb.trans (List.suffix_cons c body).isInfix)
    have hopen : c = '*' → (body ++ '*' :: '/' :: s).head? ≠ some '/' := by
      rintro rfl hhead
      cases body with
      | nil => exact absurd hhead (by simp)
      | cons d body =>
        obtain rfl : d = '/' := by simpa using hhead
        exact h ⟨[], body, rfl⟩
    rw [List.cons_append, removeFrom_blockComment_cons hopen, ih hbody]

private theorem removeFrom_lineComment_append {body : List Char} (h : '\n' ∉ body) (s : List Char) :
    removeFrom .lineComment (body ++ '\n' :: s) = '\n' :: removeFrom .code s := by
  induction body with
  | nil => rfl
  | cons c body ih =>
    have hc : c ≠ '\n' := by
      rintro rfl
      exact h (List.mem_cons_self ..)
    rw [List.cons_append, removeFrom, if_neg hc]
    exact ih fun hb => h (List.mem_cons_of_mem c hb)

/-- Blanks are left of a layout when comments are removed. -/
theorem Layout.removeFrom_append {r : List Char} (h : Layout r) :
    ∃ w, isBlankText w = true ∧
      ∀ s, removeFrom .code (r ++ s) = w ++ removeFrom .code s := by
  induction h with
  | nil => exact ⟨[], rfl, fun s => rfl⟩
  | @blank c r hc _ ih =>
    obtain ⟨w, hw, hr⟩ := ih
    refine ⟨c :: w, ?_, ?_⟩
    · rw [isBlankText, List.all_cons, hc]
      exact hw
    · intro s
      rw [List.cons_append, removeFrom_blank hc, hr, List.cons_append]
  | @blockComment body r hbody _ ih =>
    obtain ⟨w, hw, hr⟩ := ih
    refine ⟨' ' :: w, hw, ?_⟩
    intro s
    rw [List.cons_append, List.cons_append, List.append_assoc, List.cons_append, List.cons_append,
      removeFrom, removeFrom_blockComment_append hbody, hr, List.cons_append]
  | @lineComment body r hbody _ ih =>
    obtain ⟨w, hw, hr⟩ := ih
    refine ⟨'\n' :: w, hw, ?_⟩
    intro s
    rw [List.cons_append, List.cons_append, List.append_assoc, List.cons_append, removeFrom,
      removeFrom_lineComment_append hbody, hr, List.cons_append]

/-- A text with a layout in its code is the text before, blanks, and the text after it, when
comments are removed. -/
theorem LayoutRun.removeComments_append {r : List Char} (h : LayoutRun r) :
    ∃ w, w ≠ [] ∧ isBlankText w = true ∧ ∀ p q, Region.code.after p = .code →
      removeComments (p ++ r ++ q) = removeComments p ++ w ++ removeComments q := by
  obtain ⟨c, r, rfl, hc⟩ := exists_of_startsBlank h.starts
  obtain ⟨w, hw, hr⟩ := h.layout.removeFrom_append
  refine ⟨w, ?_, hw, ?_⟩
  · rintro rfl
    have hempty := hr []
    rw [List.append_nil, removeFrom_blank hc] at hempty
    exact absurd hempty (by simp)
  · intro p q hp
    have hdash : (c :: r ++ q).head? ≠ some '-' := by
      intro hhead
      obtain rfl : c = '-' := by simpa using hhead
      exact absurd hc (by decide)
    have hstar : (c :: r ++ q).head? ≠ some '*' := by
      intro hhead
      obtain rfl : c = '*' := by simpa using hhead
      exact absurd hc (by decide)
    rw [removeComments, List.append_assoc, removeFrom_append (r := .code) trivial p hdash hstar hp,
      hr, ← List.append_assoc]
    rfl

/-! ### Blanking literals -/

/-- The mark of the span that a region is in. -/
def Region.mark? : Region → Option Char
  | .quoted mark => some mark
  | _ => none

private theorem mark?_afterCode (c : Char) :
    (Region.afterCode c).mark? = if isQuote c then some c else none := by
  unfold Region.afterCode
  split <;> rfl

variable (filled : Char → Bool)

/-- A text that leaves the reader of comments in code is left outside of spans once its comments
are removed. -/
theorem blankFrom_removeFrom_append {r : Region} (hr : r.Marked) (p x : List Char)
    (h : r.after p = .code) :
    blankFrom filled r.mark? (removeFrom r p ++ x) =
      blankFrom filled r.mark? (removeFrom r p) ++ blankFrom filled none x := by
  fun_induction Region.after r p with
  | case1 r =>
    subst h
    rfl
  | case2 s ih => exact ih trivial h
  | case3 s ih => exact ih trivial h
  | case4 c s hc hc' ih =>
    have hopens := not_opensComment hc hc'
    have hrest := ih (marked_afterCode c) h
    rw [mark?_afterCode] at hrest
    rw [removeFrom_code_cons hopens, List.cons_append]
    change blankFrom filled none _ = blankFrom filled none _ ++ _
    rw [blankFrom, blankFrom, hrest, List.cons_append]
  | case5 mark c s ih =>
    have hrest := ih hr h
    change blankFrom filled (some mark) (_ ++ x) = blankFrom filled (some mark) _ ++ _ at hrest ⊢
    rw [removeFrom, List.cons_append, List.cons_append, blankFrom, blankFrom, hrest,
      List.append_assoc, List.append_assoc, List.append_assoc]
  | case6 mark c s hc ih =>
    have hrest := ih (marked_afterQuoted hr c) h
    have hback : c ≠ '\\' := by
      rintro rfl
      cases s with
      | nil =>
        have hm : '\\' ≠ mark := by
          rintro rfl
          exact absurd hr (by decide : isQuote '\\' ≠ true)
        simp [Region.afterQuoted, hm, Region.after] at h
      | cons d s => exact hc d s rfl rfl
    have hlast : ∀ t : List Char, c = '\\' → t = [] := fun t hslash => absurd hslash hback
    rw [removeFrom_quoted_cons (hlast s), List.cons_append]
    change blankFrom filled (some mark) _ = blankFrom filled (some mark) _ ++ _
    rw [blankFrom_some_cons filled (hlast _), blankFrom_some_cons filled (hlast _)]
    unfold Region.afterQuoted at hrest ⊢
    by_cases hm : c = mark
    · rw [if_pos hm] at hrest
      rw [if_pos hm, if_pos hm, if_pos hm, List.cons_append]
      exact congrArg (c :: ·) hrest
    · rw [if_neg hm] at hrest
      rw [if_neg hm, if_neg hm, if_neg hm, List.append_assoc]
      exact congrArg (content (filled mark) c ++ ·) hrest
  | case7 c s ih =>
    by_cases hc : c = '\n'
    · subst hc
      rw [removeFrom, if_pos rfl, List.cons_append]
      change blankFrom filled none _ = blankFrom filled none _ ++ _
      rw [blankFrom_cons filled _ rfl, blankFrom_cons filled _ rfl, List.cons_append]
      exact congrArg ('\n' :: ·) (ih trivial h)
    · rw [if_neg hc] at h ih
      rw [removeFrom, if_neg hc]
      exact ih trivial h
  | case8 s ih =>
    rw [removeFrom, List.cons_append]
    change blankFrom filled none _ = blankFrom filled none _ ++ _
    rw [blankFrom_cons filled _ rfl, blankFrom_cons filled _ rfl, List.cons_append]
    exact congrArg (' ' :: ·) (ih trivial h)
  | case9 c s hc ih =>
    have hopen : c = '*' → s.head? ≠ some '/' := by
      intro hstar hhead
      obtain ⟨t, rfl⟩ := List.head?_eq_some_iff.mp hhead
      exact hc t hstar rfl
    rw [removeFrom_blockComment_cons hopen]
    exact ih trivial h

/-- Blanks stay as they are. -/
theorem blankFrom_blanks {w : List Char} (hw : isBlankText w = true) (x : List Char) :
    blankFrom filled none (w ++ x) = w ++ blankFrom filled none x := by
  induction w with
  | nil => rfl
  | cons c w ih =>
    obtain ⟨hc, hw⟩ : isBlank c = true ∧ isBlankText w = true := by simpa [isBlankText] using hw
    rw [List.cons_append, blankFrom_cons filled _ (isQuote_of_isBlank hc), ih hw, List.cons_append]

/-- Literals on either side of blanks in the code are blanked each on its own. -/
theorem blankFrom_append {p w : List Char} (hp : Region.code.after p = .code)
    (hw : isBlankText w = true) (x : List Char) :
    blankFrom filled none (removeComments p ++ w ++ x) =
      blankFrom filled none (removeComments p) ++ w ++ blankFrom filled none x := by
  have happend := blankFrom_removeFrom_append filled (r := .code) trivial p (w ++ x) hp
  rw [List.append_assoc, List.append_assoc, ← blankFrom_blanks filled hw]
  exact happend

end SqlReview.Lexical

import SqlReview.Proofs.Lexical.Literal
import SqlReview.Proofs.Lexical.Region

/-!
# Texts that close their spans

A text that closes every quoted span that it opens is made of characters outside of spans and of
whole spans. Its literals are blanked apart from what follows it. A text that leaves the reader of
comments in code is of this kind once its comments are removed.
-/

namespace SqlReview.Lexical

/-- The content of a span. A backslash takes the next character with it, whatever that is. -/
inductive SpanText (mark : Char) : List Char → Prop
  | nil : SpanText mark []
  | char {c : Char} {s : List Char} :
      c ≠ mark → c ≠ backslash → SpanText mark s → SpanText mark (c :: s)
  | escape {c : Char} {s : List Char} : SpanText mark s → SpanText mark (backslash :: c :: s)

/-- A text that closes every span that it opens. -/
inductive Whole : List Char → Prop
  | nil : Whole []
  | char {c : Char} {s : List Char} : isQuote c = false → Whole s → Whole (c :: s)
  | span {m : Char} {inside s : List Char} :
      isQuote m = true → SpanText m inside → Whole s → Whole (m :: (inside ++ m :: s))

/-- A mark is no backslash. -/
theorem ne_backslash_of_isQuote {m : Char} (h : isQuote m = true) : m ≠ backslash := by
  rintro rfl
  exact absurd h (by decide)

/-- A mark has no part in the opening or the end of a comment. -/
theorem ne_of_isQuote {m : Char} (h : isQuote m = true) : m ≠ '-' ∧ m ≠ '*' ∧ m ≠ '/' := by
  refine ⟨?_, ?_, ?_⟩ <;> rintro rfl <;> exact absurd h (by decide)

/-- A mark opens no comment. -/
theorem not_opensComment_of_isQuote {m : Char} (h : isQuote m = true) (s : List Char) :
    ¬ opensComment m s := by
  rintro (⟨hdash, -⟩ | ⟨hslash, -⟩)
  · exact (ne_of_isQuote h).1 hdash
  · exact (ne_of_isQuote h).2.2 hslash

/-- A text without quotation marks and backslashes is the content of any span. -/
theorem SpanText.of_forall {m : Char} (hm : isQuote m = true) {s : List Char}
    (h : ∀ c ∈ s, isQuote c = false ∧ c ≠ backslash) : SpanText m s := by
  induction s with
  | nil => exact .nil
  | cons c s ih =>
    obtain ⟨hquote, hslash⟩ := h c (List.mem_cons_self ..)
    refine .char ?_ hslash (ih fun d hd => h d (List.mem_cons_of_mem c hd))
    rintro rfl
    rw [hquote] at hm
    exact Bool.noConfusion hm

/-- A text without quotation marks opens no span. -/
theorem Whole.of_forall {s : List Char} (h : ∀ c ∈ s, isQuote c = false) : Whole s := by
  induction s with
  | nil => exact .nil
  | cons c s ih =>
    exact .char (h c (List.mem_cons_self ..)) (ih fun d hd => h d (List.mem_cons_of_mem c hd))

/-- What follows a character outside of spans closes its spans. -/
theorem Whole.tail {c : Char} {s : List Char} (h : Whole (c :: s)) (hc : isQuote c = false) :
    Whole s := by
  cases h with
  | char _ hs => exact hs
  | span hm _ _ =>
    rw [hc] at hm
    exact Bool.noConfusion hm

/-- What follows characters outside of spans closes its spans. -/
theorem Whole.of_append {w s : List Char} (h : Whole (w ++ s)) (hw : ∀ c ∈ w, isQuote c = false) :
    Whole s := by
  induction w with
  | nil => exact h
  | cons c w ih =>
    exact ih (Whole.tail h (hw c (List.mem_cons_self ..)))
      fun d hd => hw d (List.mem_cons_of_mem c hd)

/-- A text that begins with a mark and closes its spans begins with a whole span. -/
theorem Whole.exists_span {m : Char} {s : List Char} (h : Whole (m :: s)) (hm : isQuote m = true) :
    ∃ inside t, s = inside ++ m :: t ∧ SpanText m inside ∧ Whole t := by
  cases h with
  | char hc _ =>
    rw [hm] at hc
    exact Bool.noConfusion hc
  | @span m inside t _ hinside ht => exact ⟨inside, t, rfl, hinside, ht⟩

/-- Two whole texts one after the other are whole. -/
theorem Whole.append {s t : List Char} (hs : Whole s) (ht : Whole t) : Whole (s ++ t) := by
  induction hs with
  | nil => exact ht
  | char hc _ ih => exact .char hc ih
  | @span m inside s hm hinside _ ih =>
    rw [List.cons_append, List.append_assoc, List.cons_append]
    exact .span hm hinside ih

/-! ### Blanking -/

variable (filled : Char → Bool)

/-- The content of a span is blanked character by character. -/
theorem SpanText.blankFrom {m : Char} (hm : isQuote m = true) {inside : List Char}
    (h : SpanText m inside) (t : List Char) :
    blankFrom filled (some m) (inside ++ m :: t) =
      inside.flatMap (content (filled m)) ++ m :: Lexical.blankFrom filled none t := by
  induction h with
  | nil =>
    rw [List.nil_append, blankFrom_some_cons filled fun h => absurd h (ne_backslash_of_isQuote hm),
      if_pos rfl]
    rfl
  | char hc hslash _ ih =>
    rw [List.cons_append, blankFrom_some_cons filled fun h => absurd h hslash, if_neg hc, ih,
      List.flatMap_cons, List.append_assoc]
  | escape _ ih =>
    rw [List.cons_append, List.cons_append, List.flatMap_cons, List.flatMap_cons, List.append_assoc,
      List.append_assoc, ← ih, ← List.append_assoc]
    rfl

private theorem SpanText.flatMap_content {m : Char} (hm : isQuote m = true) {inside : List Char}
    (h : SpanText m inside) (f : Bool) : SpanText m (inside.flatMap (content f)) := by
  cases f with
  | false =>
    rw [show inside.flatMap (content false) = inside from List.flatMap_singleton' inside]
    exact h
  | true =>
    refine .of_forall hm ?_
    intro c hc
    obtain ⟨d, -, hd⟩ := List.mem_flatMap.mp hc
    rw [List.eq_of_mem_replicate hd]
    exact ⟨by decide, by decide⟩

/-- A text without quotation marks stays in front of a blanked text. -/
theorem blankFrom_unquoted {w : List Char} (hw : ∀ c ∈ w, isQuote c = false) (s : List Char) :
    blankFrom filled none (w ++ s) = w ++ blankFrom filled none s := by
  induction w with
  | nil => rfl
  | cons c w ih =>
    rw [List.cons_append, blankFrom_cons filled _ (hw c (List.mem_cons_self ..)),
      ih fun d hd => hw d (List.mem_cons_of_mem c hd), List.cons_append]

/-- The literals of a text that closes its spans are blanked apart from what follows. -/
theorem Whole.blankFrom_append {p : List Char} (h : Whole p) (z : List Char) :
    blankFrom filled none (p ++ z) = blankFrom filled none p ++ blankFrom filled none z := by
  induction h with
  | nil => rfl
  | char hc _ ih =>
    rw [List.cons_append, blankFrom_cons filled _ hc, blankFrom_cons filled _ hc, ih,
      List.cons_append]
  | span hm hinside _ ih =>
    rw [List.cons_append, List.append_assoc, List.cons_append, blankFrom, blankFrom, if_pos hm,
      hinside.blankFrom filled hm, hinside.blankFrom filled hm, ih]
    simp only [List.append_assoc, List.cons_append]

/-- A span is blanked apart from what stands around it. -/
theorem Whole.blankFrom_span {p : List Char} (h : Whole p) {m : Char} (hm : isQuote m = true)
    {inside : List Char} (hinside : SpanText m inside) (z : List Char) :
    Lexical.blankFrom filled none (p ++ m :: (inside ++ m :: z)) =
      Lexical.blankFrom filled none p ++
        m :: (inside.flatMap (content (filled m)) ++ m :: Lexical.blankFrom filled none z) := by
  rw [h.blankFrom_append, Lexical.blankFrom, if_pos hm, hinside.blankFrom filled hm]

/-- A blanked text closes its spans when the text does. -/
theorem Whole.blankFrom {p : List Char} (h : Whole p) : Whole (blankFrom filled none p) := by
  induction h with
  | nil => exact .nil
  | char hc _ ih =>
    rw [blankFrom_cons filled _ hc]
    exact .char hc ih
  | span hm hinside _ ih =>
    rw [Lexical.blankFrom, if_pos hm, hinside.blankFrom filled hm]
    exact .span hm (hinside.flatMap_content hm _) ih

/-- A blanked text ends with the character that the text ends with. -/
theorem Whole.getLast?_blankFrom {p : List Char} (h : Whole p) :
    (Lexical.blankFrom filled none p).getLast? = p.getLast? := by
  induction h with
  | nil => rfl
  | char hc _ ih => rw [blankFrom_cons filled _ hc, List.getLast?_cons, List.getLast?_cons, ih]
  | @span m inside s hm hinside _ ih =>
    have hsplit : ∀ x y : List Char, (m :: (x ++ m :: y)).getLast? = some (y.getLast?.getD m) := by
      intro x y
      rw [← List.cons_append, List.getLast?_append, List.getLast?_cons, Option.some_or]
    rw [Lexical.blankFrom, if_pos hm, hinside.blankFrom filled hm, hsplit, hsplit, ih]

/-! ### Escaped marks -/

/-- Whether a backslash takes the mark of a quoted identifier with it, read from inside the span
that `mark` opened or from outside of any. -/
def escapesMark : (mark : Option Char) → List Char → Bool
  | _, [] => false
  | none, c :: s => escapesMark (if isQuote c then some c else none) s
  | some mark, '\\' :: c :: s => c == mark && mark != apostrophe || escapesMark (some mark) s
  | some mark, c :: s => escapesMark (if c = mark then none else some mark) s

/-- A character that is no quotation mark takes no mark with it. -/
theorem escapesMark_cons {c : Char} (hc : isQuote c = false) (s : List Char) :
    escapesMark none (c :: s) = escapesMark none s := by
  rw [escapesMark, if_neg (by simp [hc])]

/-- Characters that are no quotation marks take no mark with them. -/
theorem escapesMark_unquoted {w : List Char} (hw : ∀ c ∈ w, isQuote c = false) (s : List Char) :
    escapesMark none (w ++ s) = escapesMark none s := by
  induction w with
  | nil => rfl
  | cons c w ih =>
    rw [List.cons_append, escapesMark_cons (hw c (List.mem_cons_self ..)),
      ih fun d hd => hw d (List.mem_cons_of_mem c hd)]

/-- Where no mark of an identifier is escaped, an identifier does not hold its mark. -/
theorem SpanText.not_mem_of_escapesMark {m : Char} (hm : isQuote m = true) {inside t : List Char}
    (h : SpanText m inside) (ht : escapesMark (some m) (inside ++ m :: t) = false) :
    (m ≠ apostrophe → m ∉ inside) ∧ escapesMark none t = false := by
  induction h with
  | nil =>
    rw [List.nil_append, escapesMark, if_pos rfl] at ht
    · exact ⟨fun _ => List.not_mem_nil, ht⟩
    · rintro c s rfl
      exact absurd hm (by decide)
  | @char c s hc hslash _ ih =>
    rw [List.cons_append, escapesMark, if_neg hc] at ht
    · obtain ⟨hinside, ht⟩ := ih ht
      refine ⟨fun happ => ?_, ht⟩
      rw [List.mem_cons, not_or]
      exact ⟨Ne.symm hc, hinside happ⟩
    · rintro d u rfl
      exact absurd rfl hslash
  | @escape c s _ ih =>
    have hboth : (c == m && m != apostrophe) = false ∧
        escapesMark (some m) (s ++ m :: t) = false := Bool.or_eq_false_iff.mp ht
    obtain ⟨hinside, ht⟩ := ih hboth.2
    refine ⟨fun happ => ?_, ht⟩
    have hc : c ≠ m := by
      rintro rfl
      have hfirst := hboth.1
      simp [happ] at hfirst
    rw [List.mem_cons, List.mem_cons, not_or, not_or]
    exact ⟨ne_backslash_of_isQuote hm, Ne.symm hc, hinside happ⟩

/-! ### Texts without their comments -/

/-- A text that closes its spans, the span included that is open where it begins. -/
private def WholeFrom : Region → List Char → Prop
  | .quoted m, s => ∃ inside t, s = inside ++ m :: t ∧ SpanText m inside ∧ Whole t
  | _, s => Whole s

private theorem wholeFrom_afterCode {c : Char} {s : List Char}
    (h : WholeFrom (Region.afterCode c) s) : Whole (c :: s) := by
  unfold Region.afterCode at h
  split at h
  · next hc =>
    obtain ⟨inside, t, rfl, hinside, ht⟩ := h
    exact .span hc hinside ht
  · next hc => exact .char (by simpa using hc) h

private theorem wholeFrom_removeFrom {r : Region} (hr : r.Marked) (s : List Char)
    (h : r.after s = .code) : WholeFrom r (removeFrom r s) := by
  fun_induction Region.after r s with
  | case1 r =>
    subst h
    exact .nil
  | case2 s ih => exact ih trivial h
  | case3 s ih => exact ih trivial h
  | case4 c s hc hc' ih =>
    rw [removeFrom_code_cons (not_opensComment hc hc')]
    exact wholeFrom_afterCode (ih (marked_afterCode c) h)
  | case5 m c s ih =>
    obtain ⟨inside, t, hs, hinside, ht⟩ := ih hr h
    refine ⟨backslash :: c :: inside, t, ?_, .escape hinside, ht⟩
    rw [removeFrom, hs]
    rfl
  | case6 m c s hc ih =>
    have hrest := ih (marked_afterQuoted hr c) h
    have hslash : c = '\\' → s = [] := eq_nil_of_backslash hc
    rw [removeFrom_quoted_cons hslash]
    unfold Region.afterQuoted at hrest ⊢
    by_cases hm : c = m
    · rw [if_pos hm] at hrest ⊢
      exact ⟨[], _, by rw [hm]; rfl, .nil, hrest⟩
    · rw [if_neg hm] at hrest ⊢
      obtain ⟨inside, t, hs, hinside, ht⟩ := hrest
      refine ⟨c :: inside, t, by rw [hs]; rfl, .char hm ?_ hinside, ht⟩
      intro hback
      -- a backslash at the end leaves the span open
      rw [hslash hback, removeFrom_nil] at hs
      exact absurd hs.symm (by simp)
  | case7 c s ih =>
    rw [removeFrom]
    by_cases hline : c = '\n'
    · rw [if_pos hline] at h ih ⊢
      exact .char (by rw [hline]; decide) (ih trivial h)
    · rw [if_neg hline] at h ih ⊢
      exact ih trivial h
  | case8 s ih =>
    rw [removeFrom]
    exact .char (by decide) (ih trivial h)
  | case9 c s hc ih =>
    rw [removeFrom_blockComment_cons]
    · exact ih trivial h
    · intro hstar hhead
      obtain ⟨t, rfl⟩ := List.head?_eq_some_iff.mp hhead
      exact hc t hstar rfl

/-- A text that leaves the reader of comments in code closes its spans, once its comments are
removed. -/
theorem whole_removeComments {p : List Char} (h : Region.code.after p = .code) :
    Whole (removeComments p) :=
  wholeFrom_removeFrom (r := .code) trivial p h

private theorem SpanText.removeFrom {m : Char} (hm : isQuote m = true) {inside : List Char}
    (h : SpanText m inside) (z : List Char) :
    removeFrom (.quoted m) (inside ++ m :: z) = inside ++ m :: Lexical.removeFrom .code z := by
  induction h with
  | nil =>
    rw [List.nil_append, removeFrom_quoted_cons fun h => absurd h (ne_backslash_of_isQuote hm),
      Region.afterQuoted, if_pos rfl, List.nil_append]
  | char hc hslash _ ih =>
    rw [List.cons_append, removeFrom_quoted_cons fun h => absurd h hslash, Region.afterQuoted,
      if_neg hc, ih, List.cons_append]
  | @escape c s _ ih => exact congrArg (backslash :: c :: ·) ih

/-- A span is kept when comments are removed. -/
theorem removeComments_span {p : List Char} (h : Region.code.after p = .code) {m : Char}
    (hm : isQuote m = true) {inside : List Char} (hinside : SpanText m inside) (z : List Char) :
    removeComments (p ++ m :: (inside ++ m :: z)) =
      removeComments p ++ m :: (inside ++ m :: removeComments z) := by
  have hne := ne_of_isQuote hm
  have hmark := not_opensComment_of_isQuote hm (inside ++ m :: z)
  rw [removeComments,
    removeFrom_append (r := .code) trivial p (by simp [hne.1]) (by simp [hne.2.1]) h,
    removeFrom_code_cons hmark, Region.afterCode, if_pos hm, hinside.removeFrom hm]
  rfl

end SqlReview.Lexical

import SqlReview.Proofs.Lexical.Literal
import SqlReview.Proofs.Lexical.Region

/-!
# Plain texts

A text is plain when removing comments leaves it as it is. What is left of any text is plain, since
a comment leaves a line feed or a space between the characters on its two sides. A part of a plain
text is plain when it begins in code. Blanking, too, leaves a text as it is that has no spans to
blank.
-/

namespace SqlReview.Lexical

/-! ### What is left of a text -/

private theorem head?_removeFrom_comment {r : Region} (hr : r = .lineComment ∨ r = .blockComment)
    {s : List Char} {d : Char} (h : (removeFrom r s).head? = some d) : d = '\n' ∨ d = ' ' := by
  fun_induction removeFrom r s with
  | case1 r => exact absurd h (by simp)
  | case7 s ih => exact .inl (Option.some.inj h).symm
  | case8 c s hc ih => exact ih hr h
  | case9 s ih => exact .inr (Option.some.inj h).symm
  | case10 c s hc ih => exact ih hr h
  | _ => simp at hr

/-- A text without its comments begins as the text does, or with what a comment leaves behind. -/
theorem head?_removeFrom_code {s : List Char} {d : Char}
    (h : (removeFrom .code s).head? = some d) : s.head? = some d ∨ d = '\n' ∨ d = ' ' := by
  cases s with
  | nil => exact absurd h (by simp)
  | cons c s =>
    by_cases hopens : opensComment c s
    · rcases hopens with ⟨rfl, hd⟩ | ⟨rfl, hs⟩
      · obtain ⟨t, rfl⟩ := List.head?_eq_some_iff.mp hd
        exact .inr (head?_removeFrom_comment (.inl rfl) h)
      · obtain ⟨t, rfl⟩ := List.head?_eq_some_iff.mp hs
        exact .inr (head?_removeFrom_comment (.inr rfl) h)
    · rw [removeFrom_code_cons hopens] at h
      exact .inl h

/-- Where no comment was opened, none is opened once the comments after it are removed. -/
theorem not_opensComment_removeFrom {c : Char} {s : List Char} (h : ¬ opensComment c s) :
    ¬ opensComment c (removeFrom (.afterCode c) s) := by
  rintro (⟨rfl, hd⟩ | ⟨rfl, hs⟩)
  · rcases head?_removeFrom_code hd with hd | hd | hd
    · exact h (.inl ⟨rfl, hd⟩)
    · exact absurd hd (by decide)
    · exact absurd hd (by decide)
  · rcases head?_removeFrom_code hs with hs | hs | hs
    · exact h (.inr ⟨rfl, hs⟩)
    · exact absurd hs (by decide)
    · exact absurd hs (by decide)

/-- The region from which what is left of a text is read: a comment that was open is gone. -/
def Region.uncommented : Region → Region
  | .quoted mark => .quoted mark
  | _ => .code

/-- One character of code opens no comment. -/
theorem uncommented_afterCode (c : Char) :
    (Region.afterCode c).uncommented = Region.afterCode c := by
  unfold Region.afterCode
  split <;> rfl

/-- One character of a span opens no comment. -/
theorem uncommented_afterQuoted (mark c : Char) :
    (Region.afterQuoted mark c).uncommented = Region.afterQuoted mark c := by
  unfold Region.afterQuoted
  split <;> rfl

/-- What is left of a text holds no comment, from whichever region the text is read. -/
theorem removeFrom_removeFrom (r : Region) (s : List Char) :
    removeFrom r.uncommented (removeFrom r s) = removeFrom r s := by
  fun_induction removeFrom r s with
  | case1 r => exact removeFrom_nil _
  | case2 s ih => exact ih
  | case3 s ih => exact ih
  | case4 c s hc hc' ih =>
    have hopens := not_opensComment_removeFrom (not_opensComment hc hc')
    rw [uncommented_afterCode] at ih
    change removeFrom .code _ = _
    rw [removeFrom_code_cons hopens, ih]
  | case5 mark c s ih =>
    change removeFrom (.quoted mark) _ = _ at ih
    rw [Region.uncommented, removeFrom, ih]
  | case6 mark c s hc ih =>
    have hlast : c = '\\' → removeFrom (.afterQuoted mark c) s = [] := by
      intro hslash
      rw [eq_nil_of_backslash hc hslash, removeFrom_nil]
    rw [uncommented_afterQuoted] at ih
    rw [Region.uncommented, removeFrom_quoted_cons hlast, ih]
  | case7 s ih =>
    change removeFrom .code _ = _ at ih ⊢
    rw [removeFrom_code_cons (by simp [opensComment])]
    exact congrArg ('\n' :: ·) ih
  | case8 c s hc ih => exact ih
  | case9 s ih =>
    change removeFrom .code _ = _ at ih ⊢
    rw [removeFrom_code_cons (by simp [opensComment])]
    exact congrArg (' ' :: ·) ih
  | case10 c s hc ih => exact ih

/-! ### Parts of a plain text -/

/-- Whether removing comments leaves a text as it is. -/
def Plain (s : List Char) : Prop :=
  removeComments s = s

/-- What is left of a text is plain. -/
theorem plain_removeComments (s : List Char) : Plain (removeComments s) :=
  removeFrom_removeFrom .code s

/-- A text that begins with the opening of a comment is not plain. -/
theorem plain_code_cons {c : Char} {s : List Char} (h : Plain (c :: s)) :
    ¬ opensComment c s ∧ removeFrom (.afterCode c) s = s := by
  have hopens : ¬ opensComment c s := by
    rintro (⟨rfl, hd⟩ | ⟨rfl, hs⟩)
    · obtain ⟨t, rfl⟩ := List.head?_eq_some_iff.mp hd
      have hlength := length_removeFrom_le .lineComment t
      change removeFrom .lineComment t = '-' :: '-' :: t at h
      rw [h, List.length_cons, List.length_cons] at hlength
      omega
    · obtain ⟨t, rfl⟩ := List.head?_eq_some_iff.mp hs
      have hlength := length_removeFrom_le .blockComment t
      change removeFrom .blockComment t = '/' :: '*' :: t at h
      rw [h, List.length_cons, List.length_cons] at hlength
      omega
  refine ⟨hopens, ?_⟩
  rw [Plain, removeComments, removeFrom_code_cons hopens] at h
  exact (List.cons.inj h).2

/-- The text after a character of code is plain when that character opens no span. -/
theorem Plain.tail {c : Char} {s : List Char} (h : Plain (c :: s)) (hc : isQuote c = false) :
    Plain s := by
  have hs := (plain_code_cons h).2
  rwa [Region.afterCode, if_neg (by simp [hc])] at hs

/-- The text in a span is left as it is. -/
theorem Plain.span {c : Char} {s : List Char} (h : Plain (c :: s)) (hc : isQuote c = true) :
    removeFrom (.quoted c) s = s := by
  have hs := (plain_code_cons h).2
  rwa [Region.afterCode, if_pos hc] at hs

/-- The first part of a text that is left as it is is left as it is. -/
theorem removeFrom_of_append {r : Region} {s t : List Char} (h : removeFrom r (s ++ t) = s ++ t) :
    removeFrom r s = s := by
  have hshort : ∀ {q : Region} {u v : List Char}, v.length > u.length → removeFrom q u ≠ v := by
    intro q u v hlt heq
    have hle := length_removeFrom_le q u
    rw [heq] at hle
    omega
  fun_induction removeFrom r s with
  | case1 r => rfl
  | case2 s ih =>
    have hlt : ('-' :: '-' :: s ++ t).length > (s ++ t).length :=
      Nat.lt_add_of_pos_right Nat.two_pos
    exact absurd h (hshort (q := .lineComment) hlt)
  | case3 s ih =>
    have hlt : ('/' :: '*' :: s ++ t).length > (s ++ t).length :=
      Nat.lt_add_of_pos_right Nat.two_pos
    exact absurd h (hshort (q := .blockComment) hlt)
  | case4 c s hc hc' ih => rw [ih (plain_code_cons h).2]
  | case5 mark c s ih =>
    rw [List.cons_append, List.cons_append, removeFrom] at h
    rw [ih (List.cons.inj (List.cons.inj h).2).2]
  | case6 mark c s hc ih =>
    by_cases hslash : c = '\\'
    · obtain rfl := eq_nil_of_backslash hc hslash
      rw [removeFrom_nil]
    · rw [List.cons_append, removeFrom_quoted_cons fun hs => absurd hs hslash] at h
      rw [ih (List.cons.inj h).2]
  | case7 s ih =>
    rw [List.cons_append, removeFrom, if_pos rfl] at h
    rw [ih (List.cons.inj h).2]
  | case8 c s hc ih =>
    rw [List.cons_append, removeFrom, if_neg hc] at h
    exact absurd h (hshort (by simp))
  | case9 s ih => exact absurd (List.cons.inj h).1 (by decide)
  | case10 c s hc ih =>
    by_cases hclose : c = '*' ∧ (s ++ t).head? = some '/'
    · obtain ⟨rfl, hhead⟩ := hclose
      obtain ⟨u, hu⟩ := List.head?_eq_some_iff.mp hhead
      rw [List.cons_append, hu] at h
      exact absurd (List.cons.inj h).1 (by decide)
    · rw [List.cons_append, removeFrom_blockComment_cons fun hstar hhead =>
        hclose ⟨hstar, hhead⟩] at h
      exact absurd h (hshort (by simp))

/-- Plain texts one after the other are plain, unless the first ends within a span or the two share
the marks that open a comment. -/
theorem Plain.append {s t : List Char} (hs : Plain s) (hcode : Region.code.after s = .code)
    (ht : Plain t) (hdash : t.head? ≠ some '-') (hstar : t.head? ≠ some '*') : Plain (s ++ t) := by
  rw [Plain, removeComments] at hs ht ⊢
  rw [removeFrom_append (r := .code) trivial s hdash hstar hcode, hs, ht]

/-- A plain text without quotation marks ends in code. -/
theorem Plain.after_code {s : List Char} (h : Plain s) (hquotes : ∀ c ∈ s, isQuote c = false) :
    Region.code.after s = .code := by
  induction s with
  | nil => rfl
  | cons c s ih =>
    have hc := hquotes c (List.mem_cons_self ..)
    rw [after_code_cons (plain_code_cons h).1, Region.afterCode, if_neg (by simp [hc])]
    exact ih (h.tail hc) fun d hd => hquotes d (List.mem_cons_of_mem c hd)

/-- A text without quotation marks and without the marks that open a comment stays in front of a
text. -/
theorem removeComments_append_of_forall {s : List Char}
    (hs : ∀ c ∈ s, isQuote c = false ∧ c ≠ '-' ∧ c ≠ '/') (t : List Char) :
    removeComments (s ++ t) = s ++ removeComments t := by
  induction s with
  | nil => rfl
  | cons c s ih =>
    obtain ⟨hquote, hdash, hslash⟩ := hs c (List.mem_cons_self ..)
    have hopens : ¬ opensComment c (s ++ t) := by
      rintro (⟨hc, -⟩ | ⟨hc, -⟩)
      · exact hdash hc
      · exact hslash hc
    rw [List.cons_append, removeComments, removeFrom_code_cons hopens, Region.afterCode,
      if_neg (by simp [hquote])]
    exact congrArg (c :: ·) (ih fun d hd => hs d (List.mem_cons_of_mem c hd))

/-- Such a text may stand before a plain text. -/
theorem Plain.append_of_forall {t : List Char} (ht : Plain t) {s : List Char}
    (hs : ∀ c ∈ s, isQuote c = false ∧ c ≠ '-' ∧ c ≠ '/') : Plain (s ++ t) := by
  rw [Plain, removeComments_append_of_forall hs, ht]

/-- The first part of a plain text is plain. -/
theorem Plain.of_append {s t : List Char} (h : Plain (s ++ t)) : Plain s :=
  removeFrom_of_append h

/-! ### Texts without spans to blank -/

/-- A text without the marks whose spans are blanked stays as it is. -/
theorem blankFrom_eq_self (filled : Char → Bool) {mark : Option Char} {s : List Char}
    (hmark : ∀ m, mark = some m → filled m = false) (h : ∀ c ∈ s, filled c = false) :
    blankFrom filled mark s = s := by
  fun_induction blankFrom filled mark s with
  | case1 mark => rfl
  | case2 c s ih =>
    rw [ih]
    · intro m hm
      split at hm
      · obtain rfl := Option.some.inj hm
        exact h c (List.mem_cons_self ..)
      · exact absurd hm (by simp)
    · exact fun d hd => h d (List.mem_cons_of_mem c hd)
  | case3 m c s ih =>
    rw [ih hmark fun d hd => h d (List.mem_cons_of_mem _ (List.mem_cons_of_mem c hd)),
      hmark m rfl]
    rfl
  | case4 m s hc ih =>
    rw [ih (by simp) fun d hd => h d (List.mem_cons_of_mem m hd)]
  | case5 m c s hc hm ih =>
    rw [ih hmark fun d hd => h d (List.mem_cons_of_mem c hd), hmark m rfl]
    rfl

/-- What is no quotation mark is no apostrophe. -/
theorem beq_apostrophe_of_isQuote {c : Char} (h : isQuote c = false) :
    (c == apostrophe) = false := by
  simp only [isQuote, Bool.or_eq_false_iff] at h
  exact h.1.1

end SqlReview.Lexical

import SqlReview.Lexical.Comment

/-!
# Regions of a text

What the reader of comments does along a text: the lexemes it takes, each with the region in
which it stands, and the region in which a text leaves it. A text that leaves it in code can be
read apart from what follows, unless the two texts share the marks that open a comment.
-/

namespace SqlReview.Lexical

/-- What the reader takes from a text in one go, and the region in which it takes it. -/
structure Lexeme where
  region : Region
  text : List Char
  deriving Repr, DecidableEq

/-- What is left of a lexeme when comments are removed. -/
def Lexeme.kept (l : Lexeme) : List Char :=
  match l.region with
  | .code => if l.text = ['-', '-'] ∨ l.text = ['/', '*'] then [] else l.text
  | .quoted _ => l.text
  | .lineComment => if l.text = ['\n'] then l.text else []
  | .blockComment => if l.text = ['*', '/'] then [' '] else []

/-- The lexemes of a text, read from the given region on. -/
def lexemes : Region → List Char → List Lexeme
  | _, [] => []
  | .code, '-' :: '-' :: s => ⟨.code, ['-', '-']⟩ :: lexemes .lineComment s
  | .code, '/' :: '*' :: s => ⟨.code, ['/', '*']⟩ :: lexemes .blockComment s
  | .code, c :: s => ⟨.code, [c]⟩ :: lexemes (.afterCode c) s
  | .quoted mark, '\\' :: c :: s => ⟨.quoted mark, ['\\', c]⟩ :: lexemes (.quoted mark) s
  | .quoted mark, c :: s => ⟨.quoted mark, [c]⟩ :: lexemes (.afterQuoted mark c) s
  | .lineComment, c :: s =>
    ⟨.lineComment, [c]⟩ :: lexemes (if c = '\n' then .code else .lineComment) s
  | .blockComment, '*' :: '/' :: s => ⟨.blockComment, ['*', '/']⟩ :: lexemes .code s
  | .blockComment, c :: s => ⟨.blockComment, [c]⟩ :: lexemes .blockComment s

/-- The region in which a text leaves the reader that begins it in the given region. -/
def Region.after : Region → List Char → Region
  | r, [] => r
  | .code, '-' :: '-' :: s => Region.lineComment.after s
  | .code, '/' :: '*' :: s => Region.blockComment.after s
  | .code, c :: s => (Region.afterCode c).after s
  | .quoted mark, '\\' :: _ :: s => (Region.quoted mark).after s
  | .quoted mark, c :: s => (Region.afterQuoted mark c).after s
  | .lineComment, c :: s =>
    (if c = '\n' then Region.code else Region.lineComment).after s
  | .blockComment, '*' :: '/' :: s => Region.code.after s
  | .blockComment, _ :: s => Region.blockComment.after s

/-- Whether a character of code opens a comment together with the text after it. -/
def opensComment (c : Char) (s : List Char) : Prop :=
  c = '-' ∧ s.head? = some '-' ∨ c = '/' ∧ s.head? = some '*'

/-- Where neither opening of a comment stands, none is opened. -/
theorem not_opensComment {c : Char} {s : List Char} (hd : ∀ t, c = '-' → s = '-' :: t → False)
    (hs : ∀ t, c = '/' → s = '*' :: t → False) : ¬ opensComment c s := by
  rintro (⟨rfl, h⟩ | ⟨rfl, h⟩)
  · obtain ⟨t, rfl⟩ := List.head?_eq_some_iff.mp h
    exact hd t rfl rfl
  · obtain ⟨t, rfl⟩ := List.head?_eq_some_iff.mp h
    exact hs t rfl rfl

/-- The lexemes make up the text. -/
theorem flatMap_text_lexemes (r : Region) (s : List Char) :
    (lexemes r s).flatMap Lexeme.text = s := by
  fun_induction lexemes r s <;> simp_all

/-- Removing comments keeps of each lexeme what it keeps of it alone. -/
theorem removeFrom_eq_flatMap (r : Region) (s : List Char) :
    removeFrom r s = (lexemes r s).flatMap Lexeme.kept := by
  fun_induction lexemes r s with
  | case7 c s ih =>
    rw [List.flatMap_cons, ← ih, removeFrom]
    by_cases h : c = '\n' <;> simp [Lexeme.kept, h]
  | _ => simp_all [removeFrom, Lexeme.kept]

/-- Nothing is added when comments are removed. -/
theorem length_removeFrom_le (r : Region) (s : List Char) :
    (removeFrom r s).length ≤ s.length := by
  fun_induction removeFrom r s with
  | case1 r => exact Nat.le_refl _
  | case2 s ih => exact Nat.le_succ_of_le (Nat.le_succ_of_le ih)
  | case3 s ih => exact Nat.le_succ_of_le (Nat.le_succ_of_le ih)
  | case4 c s hc hc' ih => exact Nat.succ_le_succ ih
  | case5 mark c s ih => exact Nat.succ_le_succ (Nat.succ_le_succ ih)
  | case6 mark c s hc ih => exact Nat.succ_le_succ ih
  | case7 s ih => exact Nat.succ_le_succ ih
  | case8 c s hc ih => exact Nat.le_succ_of_le ih
  | case9 s ih => exact Nat.le_succ_of_le (Nat.succ_le_succ ih)
  | case10 c s hc ih => exact Nat.le_succ_of_le ih

/-- A character of code that opens no comment stays. -/
theorem removeFrom_code_cons {c : Char} {s : List Char} (h : ¬ opensComment c s) :
    removeFrom .code (c :: s) = c :: removeFrom (.afterCode c) s := by
  rw [removeFrom]
  · rintro t rfl rfl
    exact h (.inl ⟨rfl, rfl⟩)
  · rintro t rfl rfl
    exact h (.inr ⟨rfl, rfl⟩)

/-- A character of a quoted span that takes none with it stays. -/
theorem removeFrom_quoted_cons {mark c : Char} {s : List Char} (h : c = '\\' → s = []) :
    removeFrom (.quoted mark) (c :: s) = c :: removeFrom (.afterQuoted mark c) s := by
  rw [removeFrom]
  rintro d t rfl rfl
  exact List.cons_ne_nil d t (h rfl)

/-- A character of a block comment that does not close it goes with the comment. -/
theorem removeFrom_blockComment_cons {c : Char} {s : List Char}
    (h : c = '*' → s.head? ≠ some '/') :
    removeFrom .blockComment (c :: s) = removeFrom .blockComment s := by
  rw [removeFrom]
  rintro t rfl rfl
  exact h rfl rfl

/-- A character of code that opens no comment leads to the region after it. -/
theorem after_code_cons {c : Char} {s : List Char} (h : ¬ opensComment c s) :
    Region.code.after (c :: s) = (Region.afterCode c).after s := by
  rw [Region.after]
  · rintro t rfl rfl
    exact h (.inl ⟨rfl, rfl⟩)
  · rintro t rfl rfl
    exact h (.inr ⟨rfl, rfl⟩)

/-- A character of a quoted span that takes none with it leads to the region after it. -/
theorem after_quoted_cons {mark c : Char} {s : List Char} (h : c = '\\' → s = []) :
    (Region.quoted mark).after (c :: s) = (Region.afterQuoted mark c).after s := by
  rw [Region.after]
  rintro d t rfl rfl
  exact List.cons_ne_nil d t (h rfl)

/-- What opens a comment opens it whatever follows. -/
theorem opensComment_append {c : Char} {a : List Char} (b : List Char) (h : opensComment c a) :
    opensComment c (a ++ b) := by
  cases a with
  | nil => simp [opensComment] at h
  | cons d a => exact h

/-! ### Reading a text apart from what follows -/

/-- A region whose quoted span, if it is one, begins with a quotation mark. -/
def Region.Marked : Region → Prop
  | .quoted mark => isQuote mark = true
  | _ => True

/-- The region after a character of code is well marked. -/
theorem marked_afterCode (c : Char) : (Region.afterCode c).Marked := by
  unfold Region.afterCode
  split
  · next h => exact h
  · exact trivial

/-- The region after a character of a quoted span is well marked. -/
theorem marked_afterQuoted {mark : Char} (h : isQuote mark = true) (c : Char) :
    (Region.afterQuoted mark c).Marked := by
  unfold Region.afterQuoted
  split
  · exact trivial
  · exact h

/-- A text that leaves the reader in code is read as it is read alone, when the text after it
cannot complete the opening of a comment. -/
theorem lexemes_append {r : Region} (hr : r.Marked) (a : List Char) {b : List Char}
    (hd : b.head? ≠ some '-') (hs : b.head? ≠ some '*') (h : r.after a = .code) :
    lexemes r (a ++ b) = lexemes r a ++ lexemes .code b := by
  fun_induction Region.after r a with
  | case1 r =>
    subst h
    rfl
  | case2 s ih => simp [lexemes, ih trivial h]
  | case3 s ih => simp [lexemes, ih trivial h]
  | case4 c s hc hc' ih =>
    rw [List.cons_append, lexemes, lexemes, ih (marked_afterCode c) h, List.cons_append]
    · exact hc
    · exact hc'
    · intro t ht ht'
      cases s with
      | nil => exact hd (by simp_all)
      | cons d s => exact hc s ht (by simp_all)
    · intro t ht ht'
      cases s with
      | nil => exact hs (by simp_all)
      | cons d s => exact hc' s ht (by simp_all)
  | case5 mark c s ih => simp [lexemes, ih hr h]
  | case6 mark c s hc ih =>
    rw [List.cons_append, lexemes, lexemes, ih (marked_afterQuoted hr c) h, List.cons_append]
    · exact hc
    · intro d t ht ht'
      cases s with
      | nil =>
        -- A backslash at the end leaves the reader in the span, since it is no mark.
        have hm : '\\' ≠ mark := by
          rintro rfl
          exact absurd hr (by decide : isQuote '\\' ≠ true)
        subst ht
        simp [Region.afterQuoted, hm, Region.after] at h
      | cons e s => exact hc e s ht rfl
  | case7 c s ih =>
    rw [List.cons_append, lexemes, lexemes, ih (by split <;> trivial) h, List.cons_append]
  | case8 s ih => simp [lexemes, ih trivial h]
  | case9 c s hc ih =>
    rw [List.cons_append, lexemes, lexemes, ih trivial h, List.cons_append]
    · exact hc
    · intro t ht ht'
      cases s with
      | nil => simp [Region.after] at h
      | cons d s => exact hc s ht (by simp_all)

/-- Comments are removed from a text that leaves the reader in code as from that text alone. -/
theorem removeFrom_append {r : Region} (hr : r.Marked) (a : List Char) {b : List Char}
    (hd : b.head? ≠ some '-') (hs : b.head? ≠ some '*') (h : r.after a = .code) :
    removeFrom r (a ++ b) = removeFrom r a ++ removeFrom .code b := by
  simp only [removeFrom_eq_flatMap]
  rw [lexemes_append hr a hd hs h, List.flatMap_append]

end SqlReview.Lexical

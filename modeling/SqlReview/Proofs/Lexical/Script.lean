import SqlReview.Lexical.Script
import SqlReview.Proofs.Lexical.Region

/-!
# Where a script is cut

The cutting of a script reads comments and quoted spans by itself. It cuts where the reader of
comments takes a semicolon in code, and nowhere else, so that removing the comments and cutting
at semicolons can be done in either order.
-/

namespace SqlReview.Lexical

open SqlReview.Text

/-! ### Pieces between the semicolons of the code -/

/-- The texts between the semicolons that are lexemes of code. -/
def piecesOf : List Lexeme → List (List Char)
  | [] => [[]]
  | l :: ls =>
    if l.region = .code ∧ l.text = [';'] then [] :: piecesOf ls
    else prepend l.text (piecesOf ls)

/-- The pieces of a script between the semicolons that the reader of comments takes in code. -/
def pieces (script : List Char) : List (List Char) :=
  piecesOf (lexemes .code script)

/-- Characters put in front one after the other are put in front together. -/
theorem prepend_prepend (a b : List Char) (ps : List (List Char)) :
    prepend a (prepend b ps) = prepend (a ++ b) ps := by
  cases ps <;> simp [prepend]

private theorem prepend_append (a : List Char) {ps : List (List Char)} (h : ps ≠ [])
    (qs : List (List Char)) : prepend a (ps ++ qs) = prepend a ps ++ qs := by
  cases ps with
  | nil => contradiction
  | cons p ps => rfl

/-- There is at least one piece. -/
theorem piecesOf_ne_nil (ls : List Lexeme) : piecesOf ls ≠ [] := by
  cases ls with
  | nil => simp [piecesOf]
  | cons l ls =>
    rw [piecesOf]
    split
    · exact List.cons_ne_nil _ _
    · cases piecesOf ls <;> simp [prepend]

private theorem intercalate_piecesOf (ls : List Lexeme) :
    [';'].intercalate (piecesOf ls) = ls.flatMap Lexeme.text := by
  induction ls with
  | nil => rfl
  | cons l ls ih =>
    obtain ⟨p, ps, hp⟩ := List.exists_cons_of_ne_nil (piecesOf_ne_nil ls)
    rw [piecesOf, List.flatMap_cons, ← ih, hp]
    split
    · next h => rw [List.intercalate_cons_cons, h.2]; rfl
    · cases ps <;> simp [prepend, List.intercalate_cons_cons]

/-- A semicolon of the code ends a piece, whatever stands on its two sides. -/
theorem piecesOf_append_semicolon (ls ms : List Lexeme) :
    piecesOf (ls ++ ⟨.code, [';']⟩ :: ms) = piecesOf ls ++ piecesOf ms := by
  induction ls with
  | nil => simp [piecesOf]
  | cons l ls ih =>
    rw [List.cons_append, piecesOf, piecesOf, ih]
    split
    · rfl
    · exact prepend_append l.text (piecesOf_ne_nil ls) _

/-! ### The cutting follows the reader of comments -/

/-- Cutting and the removal of comments stand in the same region all along a text: both dashes of
a line comment are past when the region is looked at again. -/
theorem cutFrom_eq_piecesOf (r : Region) (s : List Char) :
    cutFrom r s = piecesOf (lexemes r s) := by
  fun_induction lexemes r s with
  | case1 r => simp [piecesOf]
  | case2 s ih =>
    rw [cutFrom, cutFrom, prepend_prepend, piecesOf, ← ih]
    rfl
  | case4 c s hc hc' ih =>
    by_cases h : c = ';'
    · subst h
      rw [cutFrom, piecesOf, ← ih]
      rfl
    · rw [cutFrom, piecesOf, ← ih]
      · simp [h]
      · exact h
      · exact hc
      · exact hc'
  | case7 c s ih => simp [cutFrom, piecesOf, ih]
  | _ => simp_all [cutFrom, piecesOf]

/-! ### The pieces one after the other -/

/-- How the pieces of a text begin: there is one piece, or the first of them leaves the reader in
code and the others are those of the text after a semicolon. -/
def CutOnce (r : Region) (s : List Char) (ps : List (List Char)) : Prop :=
  ps = [s] ∨ ∃ a b, s = a ++ ';' :: b ∧ r.after a = .code ∧ ps = a :: pieces b

private theorem CutOnce.prepend {r q : Region} {s : List Char} {ps : List (List Char)}
    (x : List Char) (h : CutOnce q s ps)
    (hx : ∀ a, a <+: s → q.after a = .code → r.after (x ++ a) = .code) :
    CutOnce r (x ++ s) (prepend x ps) := by
  rcases h with rfl | ⟨a, b, rfl, ha, rfl⟩
  · exact .inl rfl
  · refine .inr ⟨x ++ a, b, (List.append_assoc x a _).symm, ?_, rfl⟩
    exact hx a (List.prefix_append a _) ha

/-- The pieces of a text are that text alone, or begin with a part before a semicolon that leaves
the reader in code. -/
theorem cutOnce_lexemes (r : Region) (s : List Char) : CutOnce r s (piecesOf (lexemes r s)) := by
  fun_induction lexemes r s with
  | case1 r => exact .inl rfl
  | case2 s ih =>
    rw [piecesOf, if_neg (by simp)]
    exact ih.prepend ['-', '-'] fun a _ ha => by rw [List.cons_append, List.singleton_append,
      Region.after, ha]
  | case3 s ih =>
    rw [piecesOf, if_neg (by simp)]
    exact ih.prepend ['/', '*'] fun a _ ha => by rw [List.cons_append, List.singleton_append,
      Region.after, ha]
  | case4 c s hc hc' ih =>
    rw [piecesOf]
    split
    · next h =>
      obtain rfl : c = ';' := by simpa using h.2
      exact .inr ⟨[], s, rfl, rfl, rfl⟩
    · refine ih.prepend [c] fun a hp ha => ?_
      rw [List.singleton_append, after_code_cons, ha]
      intro ho
      obtain ⟨b, rfl⟩ := hp
      rcases opensComment_append b ho with ⟨rfl, h⟩ | ⟨rfl, h⟩
      · obtain ⟨t, ht⟩ := List.head?_eq_some_iff.mp h
        exact hc t rfl ht
      · obtain ⟨t, ht⟩ := List.head?_eq_some_iff.mp h
        exact hc' t rfl ht
  | case5 mark c s ih =>
    rw [piecesOf, if_neg (by simp)]
    exact ih.prepend ['\\', c] fun a _ ha => by rw [List.cons_append, List.singleton_append,
      Region.after, ha]
  | case6 mark c s hc ih =>
    rw [piecesOf, if_neg (by simp)]
    refine ih.prepend [c] fun a hp ha => ?_
    rw [List.singleton_append, after_quoted_cons, ha]
    intro h
    rw [eq_nil_of_backslash hc h] at hp
    exact List.prefix_nil.mp hp
  | case7 c s ih =>
    rw [piecesOf, if_neg (by simp)]
    exact ih.prepend [c] fun a _ ha => by rw [List.singleton_append, Region.after, ha]
  | case8 s ih =>
    rw [piecesOf, if_neg (by simp)]
    exact ih.prepend ['*', '/'] fun a _ ha => by rw [List.cons_append, List.singleton_append,
      Region.after, ha]
  | case9 c s hc ih =>
    rw [piecesOf, if_neg (by simp)]
    refine ih.prepend [c] fun a hp ha => ?_
    rw [List.singleton_append, Region.after, ha]
    rintro t rfl rfl
    obtain ⟨b, rfl⟩ := hp
    exact hc _ rfl (List.cons_append ..)

/-- Comments are removed from two texts with a semicolon of the code between them as from each of
them alone. -/
theorem removeComments_append_semicolon (a b : List Char) (h : Region.code.after a = .code) :
    removeComments (a ++ ';' :: b) = removeComments a ++ ';' :: removeComments b := by
  have hsemi : removeFrom .code (';' :: b) = ';' :: removeComments b := by
    rw [removeFrom_code_cons (by simp [opensComment])]
    rfl
  rw [removeComments, removeFrom_append (r := .code) trivial a (by simp) (by simp) h, hsemi]
  rfl

/-- Removing the comments of a script is removing those of its pieces. -/
theorem removeComments_eq_intercalate (s : List Char) :
    removeComments s = [';'].intercalate ((pieces s).map removeComments) := by
  induction hn : s.length using Nat.strongRecOn generalizing s with
  | ind n ih =>
    have hcut : CutOnce .code s (pieces s) := cutOnce_lexemes .code s
    rcases hcut with h | ⟨a, b, rfl, ha, h⟩
    · rw [h]
      simp [removeComments]
    · have hb : b.length < n := by
        rw [← hn, List.length_append, List.length_cons]
        omega
      obtain ⟨p, ps, hp⟩ := List.exists_cons_of_ne_nil (piecesOf_ne_nil (lexemes .code b))
      rw [removeComments_append_semicolon a b ha, ih b.length hb b rfl, h, pieces, hp,
        List.map_cons, List.map_cons, List.map_cons, List.intercalate_cons_cons]
      simp

/-- The pieces of two texts with a semicolon of the code between them. -/
theorem pieces_append_semicolon (a b : List Char) (h : Region.code.after a = .code) :
    pieces (a ++ ';' :: b) = pieces a ++ pieces b := by
  have hsemi : lexemes .code (';' :: b) = ⟨.code, [';']⟩ :: lexemes .code b := by
    rw [lexemes]
    · rfl
    · simp
    · simp
  rw [pieces, lexemes_append (r := .code) trivial a (by simp) (by simp) h, hsemi,
    piecesOf_append_semicolon]
  rfl

/-- The statements of a script are its pieces that hold code, trimmed. -/
theorem statements_eq_pieces (s : List Char) :
    statements s = ((pieces s).filter holdsCode).map trim := by
  rw [statements, cutFrom_eq_piecesOf, pieces]

/-- A semicolon of the code separates the statements on its two sides. -/
theorem statements_append_semicolon (a b : List Char) (h : Region.code.after a = .code) :
    statements (a ++ ';' :: b) = statements a ++ statements b := by
  simp only [statements_eq_pieces]
  rw [pieces_append_semicolon a b h, List.filter_append, List.map_append]

/-- A script is cut at the semicolons that the reader of comments takes in code: its statements are
the pieces between them, trimmed, without the blank ones, and removing comments before the cutting
gives the same texts as removing them afterwards. So a semicolon after a text that leaves the
reader in code separates the statements on its two sides. -/
theorem statements_cut_at_semicolons_of_code :
    (∀ s : List Char, [';'].intercalate (pieces s) = s ∧
      statements s =
        ((pieces s).filter fun piece => !isBlankText (removeComments piece)).map trim ∧
      removeComments s = [';'].intercalate ((pieces s).map removeComments)) ∧
    ∀ a b : List Char, Region.code.after a = .code →
      statements (a ++ ';' :: b) = statements a ++ statements b := by
  constructor
  · intro s
    refine ⟨?_, statements_eq_pieces s, removeComments_eq_intercalate s⟩
    rw [pieces, intercalate_piecesOf, flatMap_text_lexemes]
  · exact statements_append_semicolon

/-- A script whose first semicolons stand in a literal and in a comment. -/
theorem statements_cut_after_comment :
    Region.code.after "';' --;\n".toList = .code ∧
      statements "';' --;\n;x".toList = statements "';' --;\n".toList ++ statements "x".toList :=
  ⟨by decide, statements_cut_at_semicolons_of_code.2 "';' --;\n".toList "x".toList (by decide)⟩

end SqlReview.Lexical

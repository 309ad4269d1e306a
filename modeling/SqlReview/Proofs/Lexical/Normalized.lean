import SqlReview.Proofs.Lexical.Layout
import SqlReview.Proofs.Lexical.Script
import SqlReview.Proofs.Text.Trim

/-!
# Normalized scripts

The statements of a script, written one after the other with a semicolon on a line of its own
between them, are a script with the same statements. Trimming a statement may take away the line
feed that ends its last comment, or blanks of a literal that is never closed. Only the last
statement of a script can end in such a literal, and the line feed before the semicolon ends the
comment.
-/

namespace SqlReview.Lexical

open SqlReview.Text

/-! ### Reading on at a blank -/

/-- Whether a text is empty or begins with a blank. -/
def BlankLed (s : List Char) : Prop :=
  ∀ c, s.head? = some c → isBlank c = true

/-- Blanks begin with a blank. -/
theorem BlankLed.of_isBlankText {w : List Char} (hw : isBlankText w = true) : BlankLed w :=
  fun _ hc => List.all_eq_true.mp hw _ (List.mem_of_head? hc)

/-- A text that begins with a blank completes nothing with a character that is none. -/
theorem BlankLed.head?_append_ne {b : List Char} (hb : BlankLed b) {s : List Char} {d : Char}
    (hd : isBlank d = false) (hs : s.head? ≠ some d) : (s ++ b).head? ≠ some d := by
  cases s with
  | nil =>
    intro h
    rw [hb d h] at hd
    exact Bool.noConfusion hd
  | cons e s => exact hs

private theorem BlankLed.not_opensComment {b : List Char} (hb : BlankLed b) {c : Char}
    {s : List Char} (h : ¬ opensComment c s) : ¬ opensComment c (s ++ b) := by
  rintro (⟨rfl, hd⟩ | ⟨rfl, hs⟩)
  · exact hb.head?_append_ne (by decide) (fun hd => h (.inl ⟨rfl, hd⟩)) hd
  · exact hb.head?_append_ne (by decide) (fun hs => h (.inr ⟨rfl, hs⟩)) hs

/-- A blank in a quoted span belongs to its content. -/
theorem read_quoted_blank {m d : Char} (hm : isQuote m = true) (hd : isBlank d = true)
    (s : List Char) : (Region.quoted m).after (d :: s) = (Region.quoted m).after s ∧
      removeFrom (.quoted m) (d :: s) = d :: removeFrom (.quoted m) s := by
  have hslash : d = '\\' → s = [] := by
    rintro rfl
    exact absurd hd (by decide)
  have hne : d ≠ m := beq_eq_false_iff_ne.mp (beq_of_isBlank hd (isBlank_of_isQuote hm))
  rw [after_quoted_cons hslash, removeFrom_quoted_cons hslash, Region.afterQuoted, if_neg hne]
  exact ⟨rfl, rfl⟩

/-- The reader can stop before a blank and go on from the region that it has reached. Only a
backslash takes a blank with it, and without it the blank would belong to the span as well. -/
theorem read_append {r : Region} (hr : r.Marked) (a : List Char) {b : List Char}
    (hb : BlankLed b) : r.after (a ++ b) = (r.after a).after b ∧
      removeFrom r (a ++ b) = removeFrom r a ++ removeFrom (r.after a) b := by
  fun_induction Region.after r a with
  | case1 r => simp
  | case2 s ih => exact ih trivial
  | case3 s ih => exact ih trivial
  | case4 c s hc hc' ih =>
    have hopens := not_opensComment hc hc'
    obtain ⟨hafter, hremove⟩ := ih (marked_afterCode c)
    rw [List.cons_append, after_code_cons (hb.not_opensComment hopens),
      removeFrom_code_cons (hb.not_opensComment hopens), removeFrom_code_cons hopens, hremove]
    exact ⟨hafter, rfl⟩
  | case5 m c s ih =>
    obtain ⟨hafter, hremove⟩ := ih hr
    rw [List.cons_append, List.cons_append, Region.after, removeFrom, removeFrom, hremove]
    exact ⟨hafter, rfl⟩
  | case6 m c s hc ih =>
    by_cases hslash : c = '\\'
    · obtain rfl := eq_nil_of_backslash hc hslash
      have hne : c ≠ m := by
        rintro rfl
        subst hslash
        exact absurd hr (by decide : isQuote '\\' ≠ true)
      have hstay : Region.afterQuoted m c = .quoted m := if_neg hne
      subst hslash
      cases b with
      | nil => simp [Region.after]
      | cons d b =>
        obtain ⟨hafter, hremove⟩ := read_quoted_blank hr (hb d rfl) b
        rw [List.singleton_append, Region.after, removeFrom, removeFrom_quoted_cons fun _ => rfl,
          hstay, removeFrom_nil, Region.after, hafter, hremove]
        exact ⟨rfl, rfl⟩
    · obtain ⟨hafter, hremove⟩ := ih (marked_afterQuoted hr c)
      rw [List.cons_append, after_quoted_cons fun h => absurd h hslash,
        removeFrom_quoted_cons fun h => absurd h hslash,
        removeFrom_quoted_cons fun h => absurd h hslash, hremove]
      exact ⟨hafter, rfl⟩
  | case7 c s ih =>
    obtain ⟨hafter, hremove⟩ := ih (by split <;> trivial)
    rw [List.cons_append, Region.after, removeFrom, removeFrom]
    refine ⟨hafter, ?_⟩
    by_cases hline : c = '\n'
    · simp only [if_pos hline] at hremove ⊢
      rw [hremove, List.cons_append]
    · simp only [if_neg hline] at hremove ⊢
      exact hremove
  | case8 s ih =>
    obtain ⟨hafter, hremove⟩ := ih trivial
    rw [List.cons_append, List.cons_append, Region.after, removeFrom, removeFrom, hremove]
    exact ⟨hafter, rfl⟩
  | case9 c s hc ih =>
    have hopen : c = '*' → s.head? ≠ some '/' := by
      intro hstar hhead
      obtain ⟨t, rfl⟩ := List.head?_eq_some_iff.mp hhead
      exact hc t hstar rfl
    have hopen' : c = '*' → (s ++ b).head? ≠ some '/' :=
      fun hstar => hb.head?_append_ne (by decide) (hopen hstar)
    obtain ⟨hafter, hremove⟩ := ih trivial
    rw [List.cons_append, removeFrom_blockComment_cons hopen', removeFrom_blockComment_cons hopen,
      Region.after]
    · exact ⟨hafter, hremove⟩
    · intro t hstar ht
      exact hopen' hstar (by rw [ht]; rfl)

private theorem marked_after {r : Region} (hr : r.Marked) (s : List Char) : (r.after s).Marked := by
  fun_induction Region.after r s with
  | case4 c s hc hc' ih => exact ih (marked_afterCode c)
  | case6 m c s hc ih => exact ih (marked_afterQuoted hr c)
  | case7 c s ih => exact ih (by split <;> trivial)
  | _ => simp_all [Region.Marked]

/-! ### Blanks around a text -/

variable {v w : List Char}

private theorem isBlankText_removeFrom (hw : isBlankText w = true) (r : Region) :
    isBlankText (removeFrom r w) = true := by
  fun_induction removeFrom r w with
  | case1 r => rfl
  | case7 s ih => exact ih (List.all_eq_true.mpr fun c hc =>
      List.all_eq_true.mp hw c (List.mem_cons_of_mem _ hc))
  | case9 s ih =>
    exact absurd (List.all_eq_true.mp hw '*' (List.mem_cons_self ..)) (by decide)
  | _ => simp_all [isBlankText]

/-- Blanks in front of a text are read in code. -/
theorem read_blanks_append (hv : isBlankText v = true) (s : List Char) :
    Region.code.after (v ++ s) = Region.code.after s ∧
      removeComments (v ++ s) = v ++ removeComments s := by
  induction v with
  | nil => exact ⟨rfl, rfl⟩
  | cons c v ih =>
    obtain ⟨hc, hv⟩ : isBlank c = true ∧ isBlankText v = true := by simpa [isBlankText] using hv
    obtain ⟨hafter, hremove⟩ := ih hv
    have hopens : ¬ opensComment c (v ++ s) := by
      rintro (⟨rfl, -⟩ | ⟨rfl, -⟩)
      · exact absurd hc (by decide)
      · exact absurd hc (by decide)
    rw [removeComments] at hremove ⊢
    rw [List.cons_append, after_code_cons hopens, Region.afterCode, isQuote_of_isBlank hc,
      removeFrom_blank hc, hremove]
    exact ⟨hafter, rfl⟩

/-- Blanks around a piece make no difference to whether it holds code. -/
theorem holdsCode_margins (hv : isBlankText v = true) (hw : isBlankText w = true) (s : List Char) :
    holdsCode (v ++ s ++ w) = holdsCode s := by
  have hremove := (read_append (r := .code) trivial s (.of_isBlankText hw)).2
  have hrest := isBlankText_removeFrom hw (Region.code.after s)
  rw [holdsCode, holdsCode, List.append_assoc, (read_blanks_append hv _).2, removeComments, hremove]
  rw [isBlankText] at hv hrest ⊢
  rw [List.all_append, List.all_append, hv, hrest, Bool.true_and, Bool.and_true]
  rfl

/-- Blanks around a text are trimmed with its own. -/
theorem trim_margins (hv : isBlankText v = true) (hw : isBlankText w = true) (s : List Char) :
    trim (v ++ s ++ w) = trim s := by
  have hend : ∀ t, trimEnd (t ++ w) = trimEnd t := by
    intro t
    have hreverse : isBlankText w.reverse = true := by simpa [isBlankText] using hw
    have hdrop := trimStart_append hreverse t.reverse
    rw [trimEnd, trimEnd, List.reverse_append]
    exact congrArg List.reverse hdrop
  rw [List.append_assoc, trim, trimStart_append hv, trim]
  cases hs : trimStart s with
  | nil =>
    have hblank : isBlankText (s ++ w) = true := by
      rw [isBlankText, List.all_append, Bool.and_eq_true_iff]
      exact ⟨trimStart_eq_nil_iff.mp hs, hw⟩
    rw [trimStart_eq_nil_iff.mpr hblank]
  | cons c t =>
    have hne : trimStart s ≠ [] := by
      rw [hs]
      exact List.cons_ne_nil c t
    rw [trimStart_append_of_ne_nil hne, hend, hs]

/-! ### Pieces that are not cut -/

/-- Whether a text holds no semicolon of code. -/
def Uncut (s : List Char) : Prop :=
  pieces s = [s]

/-- A text is uncut when no semicolon in it comes after a text that leaves the reader in code. -/
theorem uncut_iff {s : List Char} :
    Uncut s ↔ ∀ a b, s = a ++ ';' :: b → Region.code.after a ≠ .code := by
  constructor
  · rintro hs a b rfl hcode
    have hlength := congrArg List.length hs
    have ha := List.length_pos_of_ne_nil (piecesOf_ne_nil (lexemes .code a))
    have hb := List.length_pos_of_ne_nil (piecesOf_ne_nil (lexemes .code b))
    rw [pieces_append_semicolon a b hcode, List.length_append, List.length_singleton] at hlength
    rw [← pieces] at ha hb
    omega
  · intro h
    have hcut : CutOnce .code s (pieces s) := cutOnce_lexemes .code s
    rcases hcut with hs | ⟨a, b, hab, hcode, -⟩
    · exact hs
    · exact absurd hcode (h a b hab)

/-- A script is uncut, or it is an uncut text that leaves the reader in code, a semicolon and
another script. -/
@[elab_as_elim]
theorem cut_induction {motive : List Char → Prop} (uncut : ∀ s, Uncut s → motive s)
    (semicolon : ∀ a b, Uncut a → Region.code.after a = .code → motive a → motive b →
      motive (a ++ ';' :: b)) (s : List Char) : motive s := by
  induction hn : s.length using Nat.strongRecOn generalizing s with
  | ind n ih =>
    have hcut : CutOnce .code s (pieces s) := cutOnce_lexemes .code s
    rcases hcut with hs | ⟨a, b, rfl, hcode, hs⟩
    · exact uncut s hs
    · have hb : b.length < n := by
        rw [← hn, List.length_append, List.length_cons]
        omega
      have ha : pieces a = [a] := by
        rw [pieces_append_semicolon a b hcode] at hs
        exact List.append_cancel_right hs
      exact semicolon a b ha hcode (uncut a ha) (ih b.length hb b rfl)

private theorem semicolon_after_blanks {a b x : List Char} (hv : isBlankText v = true)
    (h : v ++ x = a ++ ';' :: b) : ∃ c, a = v ++ c ∧ x = c ++ ';' :: b := by
  induction v generalizing a with
  | nil => exact ⟨a, rfl, h⟩
  | cons d v ih =>
    obtain ⟨hd, hv⟩ : isBlank d = true ∧ isBlankText v = true := by simpa [isBlankText] using hv
    cases a with
    | nil =>
      obtain rfl : d = ';' := (List.cons.inj h).1
      exact absurd hd (by decide)
    | cons e a =>
      obtain ⟨rfl, htail⟩ := List.cons.inj h
      obtain ⟨c, rfl, hx⟩ := ih hv htail
      exact ⟨c, rfl, hx⟩

private theorem semicolon_before_blanks {a b x : List Char} (hw : isBlankText w = true)
    (h : x ++ w = a ++ ';' :: b) : ∃ d, x = a ++ ';' :: d := by
  induction x generalizing a with
  | nil =>
    have hmem : ';' ∈ w := by
      rw [← List.nil_append w, h]
      exact List.mem_append_right a (List.mem_cons_self ..)
    exact absurd (List.all_eq_true.mp hw ';' hmem) (by decide)
  | cons e x ih =>
    cases a with
    | nil =>
      obtain rfl : e = ';' := (List.cons.inj h).1
      exact ⟨x, rfl⟩
    | cons f a =>
      obtain ⟨rfl, htail⟩ := List.cons.inj h
      obtain ⟨d, rfl⟩ := ih htail
      exact ⟨d, rfl⟩

private theorem Uncut.margins {s : List Char} (h : Uncut s) (hv : isBlankText v = true)
    (hw : isBlankText w = true) : Uncut (v ++ s ++ w) := by
  rw [uncut_iff] at h ⊢
  intro a b hab hcode
  rw [List.append_assoc] at hab
  obtain ⟨c, rfl, hc⟩ := semicolon_after_blanks hv hab
  obtain ⟨d, rfl⟩ := semicolon_before_blanks hw hc
  rw [(read_blanks_append hv c).1] at hcode
  exact h c d rfl hcode

/-- The statement of an uncut text, if it holds one. -/
theorem Uncut.statements_eq {s : List Char} (h : Uncut s) :
    statements s = if holdsCode s then [trim s] else [] := by
  rw [statements_eq_pieces, h]
  by_cases hs : holdsCode s = true
  · simp [hs]
  · simp [hs]

/-- Blanks around a script belong to none of its statements. -/
theorem statements_margins (hv : isBlankText v = true) (hw : isBlankText w = true)
    (s : List Char) : statements (v ++ s ++ w) = statements s := by
  induction s using cut_induction generalizing v w with
  | uncut s hs =>
    rw [(hs.margins hv hw).statements_eq, hs.statements_eq, holdsCode_margins hv hw,
      trim_margins hv hw]
  | semicolon a b _ hcode iha ihb =>
    have hcode' : Region.code.after (v ++ a) = .code := by
      rw [(read_blanks_append hv a).1, hcode]
    have hsplit : v ++ (a ++ ';' :: b) ++ w = (v ++ a ++ []) ++ ';' :: ([] ++ b ++ w) := by simp
    rw [hsplit, statements_append_semicolon _ _ (by rwa [List.append_nil]),
      statements_append_semicolon _ _ hcode, iha hv rfl, ihb rfl hw]

private theorem statements_trim (s : List Char) : statements (trim s) = statements s := by
  obtain ⟨v, w, hv, hw, hs⟩ := exists_trim s
  conv_rhs => rw [hs]
  exact (statements_margins hv hw (trim s)).symm

/-! ### Statements written one after the other -/

private theorem after_newline {r : Region} (hr : r.Marked) (hw : isBlankText w = true)
    (h : r.after w = .code) : r.after ['\n'] = .code := by
  -- A line comment is all that blanks can end.
  induction w generalizing r with
  | nil =>
    rw [Region.after] at h
    subst h
    rfl
  | cons c w ih =>
    obtain ⟨hc, hw⟩ : isBlank c = true ∧ isBlankText w = true := by simpa [isBlankText] using hw
    cases r with
    | code => rfl
    | lineComment => rfl
    | quoted m =>
      rw [(read_quoted_blank hr hc w).1] at h
      exact ih hr hw h
    | blockComment =>
      rw [Region.after] at h
      · exact ih trivial hw h
      · rintro t rfl
        exact absurd hc (by decide)

/-- A trimmed text with a line feed after it leaves the reader in code, if the text did. -/
theorem after_trim_newline {a : List Char} (h : Region.code.after a = .code) :
    Region.code.after (trim a ++ ['\n']) = .code := by
  obtain ⟨v, w, hv, hw, ha⟩ := exists_trim a
  rw [ha, List.append_assoc, (read_blanks_append hv _).1,
    (read_append (r := .code) trivial _ (.of_isBlankText hw)).1] at h
  rw [(read_append (r := .code) trivial _ (.of_isBlankText rfl)).1]
  exact after_newline (marked_after (r := .code) trivial (trim a)) hw h

/-- A statement of a script is the only one of itself. -/
theorem statements_of_mem {s t : List Char} (h : t ∈ statements s) : statements t = [t] := by
  induction s using cut_induction with
  | uncut s hs =>
    rw [hs.statements_eq] at h
    split at h
    · next hcode =>
      obtain rfl := List.mem_singleton.mp h
      rw [statements_trim, hs.statements_eq, if_pos hcode]
    · exact absurd h (List.not_mem_nil)
  | semicolon a b _ hcode iha ihb =>
    rw [statements_append_semicolon a b hcode] at h
    exact (List.mem_append.mp h).elim iha ihb

/-- A statement of a script is trimmed. -/
theorem trim_of_mem_statements {s t : List Char} (h : t ∈ statements s) : trim t = t := by
  rw [statements_eq_pieces] at h
  obtain ⟨p, -, rfl⟩ := List.mem_map.mp h
  exact trim_trim p

/-- The first statement of a script and the others, written one after the other. -/
theorem statements_first {a : List Char} (h : Region.code.after a = .code) (b : List Char) :
    statements (trim a ++ "\n;\n".toList ++ b) = statements a ++ statements b := by
  have hsplit : trim a ++ "\n;\n".toList ++ b = (trim a ++ ['\n']) ++ ';' :: ('\n' :: b) := by simp
  have ha := statements_margins (v := []) (w := ['\n']) rfl rfl (trim a)
  have hb := statements_margins (v := ['\n']) (w := []) rfl rfl b
  rw [List.append_nil] at hb
  rw [hsplit, statements_append_semicolon _ _ (after_trim_newline h), ← statements_trim a, ← hb]
  exact congrArg (· ++ _) ha

/-- The statements of a script, written one after the other with a semicolon on a line of its own
between them, are a script with the same statements. Each of them is trimmed, and it is the only
statement of itself. -/
theorem statements_normalized (s : List Char) :
    statements ("\n;\n".toList.intercalate (statements s)) = statements s ∧
      ∀ t ∈ statements s, trim t = t ∧ statements t = [t] := by
  refine ⟨?_, fun t ht => ⟨trim_of_mem_statements ht, statements_of_mem ht⟩⟩
  induction s using cut_induction with
  | uncut s hs =>
    rw [hs.statements_eq]
    split
    · next hcode =>
      rw [List.intercalate_singleton, statements_trim, hs.statements_eq, if_pos hcode]
    · rfl
  | semicolon a b ha hcode iha ihb =>
    rw [statements_append_semicolon a b hcode]
    by_cases hkept : holdsCode a = true
    · have hfirst : statements a = [trim a] := by rw [ha.statements_eq, if_pos hkept]
      cases hb : statements b with
      | nil => rw [List.append_nil, iha]
      | cons t ts =>
        rw [hfirst, List.singleton_append, List.intercalate_cons_cons, statements_first hcode, ← hb,
          ihb, hfirst, List.singleton_append]
    · rw [ha.statements_eq, if_neg hkept, List.nil_append, ihb]

/-- A script with a comment after its first statement and blanks at the end of a literal that is
never closed. -/
theorem statements_normalized_comment :
    "SELECT ';' -- a".toList ∈ statements " SELECT ';' -- a\n; ;x '\n".toList ∧
      statements " SELECT ';' -- a\n; ;x '\n".toList =
        ["SELECT ';' -- a".toList, "x '".toList] ∧
      statements "SELECT ';' -- a\n;\nx '".toList =
        ["SELECT ';' -- a".toList, "x '".toList] ∧
      statements "SELECT ';' -- a".toList = ["SELECT ';' -- a".toList] := by
  have hs : statements " SELECT ';' -- a\n; ;x '\n".toList =
      ["SELECT ';' -- a".toList, "x '".toList] := by decide
  have hmem : "SELECT ';' -- a".toList ∈ statements " SELECT ';' -- a\n; ;x '\n".toList := by
    rw [hs]
    exact List.mem_cons_self ..
  have hnormalized := statements_normalized " SELECT ';' -- a\n; ;x '\n".toList
  refine ⟨hmem, hs, ?_, (hnormalized.2 _ hmem).2⟩
  rw [hs] at hnormalized
  exact hnormalized.1

end SqlReview.Lexical

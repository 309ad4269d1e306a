import SqlReview.Proofs.Lexical.Normalized
import SqlReview.Proofs.Lexical.Uncommented

/-!
# Scripts without statements

A script holds no statement exactly if nothing but blanks and semicolons is left of it without its
comments. Of the semicolons that are left those of quoted spans come with a quotation mark, so
those among blanks only were cut at; and no piece of a script is cut again.
-/

namespace SqlReview.Lexical

open SqlReview.Text

/-- Whether a text has nothing but blanks and semicolons. -/
def Idle (s : List Char) : Prop :=
  ∀ c ∈ s, isBlank c = true ∨ c = ';'

/-- Whether a text is idle is told from its characters. -/
instance (s : List Char) : Decidable (Idle s) :=
  inferInstanceAs (Decidable (∀ c ∈ s, _))

private theorem idle_append_semicolon_iff {a b : List Char} :
    Idle (a ++ ';' :: b) ↔ Idle a ∧ Idle b := by
  simp [Idle, or_imp, forall_and]

private theorem Idle.of_isBlankText {s : List Char} (h : isBlankText s = true) : Idle s :=
  fun c hc => .inl (List.all_eq_true.mp h c hc)

/-- Blanks and semicolons are read in code, one after the other. -/
theorem Idle.lexemes_eq {s : List Char} (h : Idle s) :
    lexemes .code s = s.map fun c => ⟨.code, [c]⟩ := by
  induction s with
  | nil => rfl
  | cons c s ih =>
    have hc : isQuote c = false ∧ c ≠ '-' ∧ c ≠ '/' := by
      rcases h c (List.mem_cons_self ..) with hc | rfl
      · refine ⟨isQuote_of_isBlank hc, ?_, ?_⟩
        · rintro rfl
          exact absurd hc (by decide)
        · rintro rfl
          exact absurd hc (by decide)
      · decide
    have hopens : ¬ opensComment c s := by
      rintro (⟨hdash, -⟩ | ⟨hslash, -⟩)
      · exact hc.2.1 hdash
      · exact hc.2.2 hslash
    rw [lexemes_code_cons hopens, Region.afterCode, hc.1, List.map_cons]
    exact congrArg _ (ih fun d hd => h d (List.mem_cons_of_mem c hd))

/-! ### Uncut texts -/

private theorem Uncut.notMem_lexemes {s : List Char} (h : Uncut s) :
    (⟨.code, [';']⟩ : Lexeme) ∉ lexemes .code s := by
  intro hmem
  obtain ⟨before, after, hsplit⟩ := List.append_of_mem hmem
  have hlength := congrArg List.length h
  have hbefore := List.length_pos_of_ne_nil (piecesOf_ne_nil before)
  have hafter := List.length_pos_of_ne_nil (piecesOf_ne_nil after)
  rw [pieces, hsplit, piecesOf_append_semicolon, List.length_append, List.length_singleton]
    at hlength
  omega

private theorem mem_lexemes_of_uncommented? {ls : List Lexeme}
    (h : ⟨.code, [';']⟩ ∈ ls.filterMap Lexeme.uncommented?) : ⟨.code, [';']⟩ ∈ ls := by
  obtain ⟨⟨region, text⟩, hmem, hl⟩ := List.mem_filterMap.mp h
  cases region with
  | code =>
    simp only [Lexeme.uncommented?] at hl
    split at hl
    · exact absurd hl (by simp)
    · rwa [Option.some.inj hl] at hmem
  | quoted mark => exact absurd hl (by simp [Lexeme.uncommented?])
  | lineComment => exact absurd hl (by simp [Lexeme.uncommented?])
  | blockComment => exact absurd hl (by simp [Lexeme.uncommented?])

/-- An uncut text of which blanks and semicolons are left has no semicolons left. -/
theorem Uncut.isBlankText_of_idle {s : List Char} (h : Uncut s) (hidle : Idle (removeComments s)) :
    isBlankText (removeComments s) = true := by
  apply List.all_eq_true.mpr
  intro c hc
  rcases hidle c hc with hblank | rfl
  · exact hblank
  · have hmem : ⟨.code, [';']⟩ ∈ lexemes .code (removeComments s) := by
      rw [hidle.lexemes_eq]
      exact List.mem_map_of_mem hc
    rw [show lexemes .code (removeComments s) = _ from lexemes_removeFrom .code s] at hmem
    exact absurd (mem_lexemes_of_uncommented? hmem) h.notMem_lexemes

/-! ### Statements -/

/-- A script has no statement exactly if only blanks and semicolons are left without comments. -/
theorem statements_eq_nil_iff (s : List Char) :
    statements s = [] ↔ Idle (removeComments s) := by
  induction s using cut_induction with
  | uncut s hs =>
    rw [hs.statements_eq, holdsCode]
    cases hblank : isBlankText (removeComments s) with
    | true => exact iff_of_true rfl (.of_isBlankText hblank)
    | false =>
      refine iff_of_false (List.cons_ne_nil _ _) fun hidle => ?_
      rw [hs.isBlankText_of_idle hidle] at hblank
      exact Bool.noConfusion hblank
  | semicolon a b _ hcode iha ihb =>
    rw [statements_append_semicolon a b hcode, removeComments_append_semicolon a b hcode,
      List.append_eq_nil_iff, iha, ihb, idle_append_semicolon_iff]

/-- A statement of a script is not blank without its comments. -/
theorem holdsCode_of_mem_statements {s t : List Char} (h : t ∈ statements s) :
    holdsCode t = true := by
  rw [statements_eq_pieces] at h
  obtain ⟨p, hp, rfl⟩ := List.mem_map.mp h
  obtain ⟨v, w, hv, hw, heq⟩ := exists_trim p
  rw [← holdsCode_margins hv hw (trim p), ← heq]
  exact (List.mem_filter.mp hp).2

end SqlReview.Lexical

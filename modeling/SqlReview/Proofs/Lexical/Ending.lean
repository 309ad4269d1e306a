import SqlReview.Proofs.Lexical.Layout

/-!
# Endings

What blanks at the end of a text become when its literals are blanked. They stay as they are, unless
they stand in a literal that is never closed. An ending is therefore a run of blanks or an open
literal whose content is blanked, and with blanks after it a text has another ending at most.
-/

namespace SqlReview.Lexical

open SqlReview.Text

/-- Blanks, or an open literal whose content is blanked. -/
inductive Ending : List Char → Prop
  | blanks {z : List Char} : isBlankText z = true → Ending z
  | literal {m : Char} (n : Nat) : isQuote m = true → Ending (m :: List.replicate n filler)

variable {z : List Char}

/-- An ending begins with a blank or with a quotation mark. -/
theorem Ending.head (h : Ending z) {c : Char} (hc : z.head? = some c) :
    isBlank c = true ∨ isQuote c = true := by
  cases h with
  | blanks hz => exact .inl (List.all_eq_true.mp hz c (List.mem_of_head? hc))
  | literal n hm =>
    obtain rfl := Option.some.inj hc
    exact .inr hm

/-- An ending holds blanks, quotation marks and fillers. -/
theorem Ending.mem (h : Ending z) {c : Char} (hc : c ∈ z) :
    isBlank c = true ∨ isQuote c = true ∨ c = filler := by
  cases h with
  | blanks hz => exact .inl (List.all_eq_true.mp hz c hc)
  | literal n hm =>
    rcases List.mem_cons.mp hc with rfl | hc
    · exact .inr (.inl hm)
    · exact .inr (.inr (List.eq_of_mem_replicate hc))

/-! ### Blanks after a text -/

/-- Whether two texts differ at most in their endings. -/
def SameButEnding (x y : List Char) : Prop :=
  ∃ p z z', Ending z ∧ Ending z' ∧ x = p ++ z ∧ y = p ++ z'

/-- Whether a text is made of fillers. -/
private def OfFillers (x : List Char) : Prop :=
  ∀ c ∈ x, c = filler

private theorem OfFillers.append {x y : List Char} (hx : OfFillers x) (hy : OfFillers y) :
    OfFillers (x ++ y) := by
  intro c hc
  exact (List.mem_append.mp hc).elim (hx c) (hy c)

private theorem ofFillers_content (c : Char) : OfFillers (content true c) := by
  intro d hd
  exact List.eq_of_mem_replicate hd

private theorem SameButEnding.append {x y : List Char} (h : SameButEnding x y) (u : List Char) :
    SameButEnding (u ++ x) (u ++ y) := by
  obtain ⟨p, z, z', hz, hz', rfl, rfl⟩ := h
  exact ⟨u ++ p, z, z', hz, hz', (List.append_assoc ..).symm, (List.append_assoc ..).symm⟩

private theorem sameButEnding_of_ofFillers {m : Char} (hm : isQuote m = true) {x y : List Char}
    (hx : OfFillers x) (hy : OfFillers y) : SameButEnding (m :: x) (m :: y) := by
  rw [List.eq_replicate_of_mem hx, List.eq_replicate_of_mem hy]
  exact ⟨[], _, _, .literal _ hm, .literal _ hm, rfl, rfl⟩

variable (filled : Char → Bool) {w : List Char}

private theorem blankFrom_some_blank {c m : Char} (hc : isBlank c = true) (hm : isQuote m = true)
    (s : List Char) : blankFrom filled (some m) (c :: s) =
      content (filled m) c ++ blankFrom filled (some m) s := by
  have hne : c ≠ m := beq_eq_false_iff_ne.mp (beq_of_isBlank hc (isBlank_of_isQuote hm))
  have hslash : c = '\\' → s = [] := by
    rintro rfl
    exact absurd hc (by decide)
  rw [blankFrom_some_cons filled hslash, if_neg hne]

private theorem blankFrom_backslash_blanks (hw : isBlankText w = true) {m : Char}
    (hm : isQuote m = true) :
    blankFrom filled (some m) ('\\' :: w) =
      content (filled m) '\\' ++ blankFrom filled (some m) w := by
  cases w with
  | nil =>
    have hne : '\\' ≠ m := by
      rintro rfl
      exact absurd hm (by decide)
    rw [blankFrom_some_cons filled fun _ => rfl, if_neg hne]
  | cons c w =>
    obtain ⟨hc, -⟩ : isBlank c = true ∧ isBlankText w = true := by simpa [isBlankText] using hw
    rw [blankFrom, blankFrom_some_blank filled hc hm, List.append_assoc]

private theorem blankFrom_some_blanks (hw : isBlankText w = true) {m : Char}
    (hm : isQuote m = true) :
    filled m = true ∧ OfFillers (blankFrom filled (some m) w) ∨
      filled m = false ∧ blankFrom filled (some m) w = w := by
  have hcontent : blankFrom filled (some m) w = w.flatMap (content (filled m)) := by
    induction w with
    | nil => rfl
    | cons c w ih =>
      obtain ⟨hc, hw⟩ : isBlank c = true ∧ isBlankText w = true := by simpa [isBlankText] using hw
      rw [blankFrom_some_blank filled hc hm, ih hw, List.flatMap_cons]
  rw [hcontent]
  cases filled m with
  | true =>
    refine .inl ⟨rfl, ?_⟩
    intro c hc
    obtain ⟨d, -, hd⟩ := List.mem_flatMap.mp hc
    exact ofFillers_content d c hd
  | false => exact .inr ⟨rfl, List.flatMap_singleton' w⟩

/-- Whether two texts are both made of fillers, in an open span, or differ at most in their
endings. -/
private def Alike (mark : Option Char) (x y : List Char) : Prop :=
  (∃ m ∈ mark, filled m = true ∧ OfFillers x ∧ OfFillers y) ∨ SameButEnding x y

private theorem Alike.content {m : Char} {x y : List Char} (h : Alike filled (some m) x y)
    (c : Char) : Alike filled (some m) (content (filled m) c ++ x) (content (filled m) c ++ y) := by
  rcases h with ⟨m', hm', hfilled, hx, hy⟩ | h
  · obtain rfl := Option.some.inj hm'
    rw [hfilled]
    exact .inl ⟨m, rfl, hfilled, (ofFillers_content c).append hx, (ofFillers_content c).append hy⟩
  · exact .inr (h.append _)

private theorem alike_blankFrom_append (hw : isBlankText w = true) (mark : Option Char)
    (hmark : ∀ m ∈ mark, isQuote m = true) (s : List Char) :
    Alike filled mark (blankFrom filled mark s) (blankFrom filled mark (s ++ w)) := by
  -- In an open literal the blanks make for more fillers; elsewhere they stay as they are.
  have hlast : ∀ {v m}, isBlankText v = true → isQuote m = true →
      Alike filled (some m) [] (blankFrom filled (some m) v) := by
    intro v m hv hm
    rcases blankFrom_some_blanks filled hv hm with ⟨hfilled, hv⟩ | ⟨-, hv'⟩
    · exact .inl ⟨m, rfl, hfilled, by simp [OfFillers], hv⟩
    · rw [hv']
      exact .inr ⟨[], [], v, .blanks rfl, .blanks hv, rfl, rfl⟩
  fun_induction blankFrom filled mark s with
  | case1 mark =>
    cases mark with
    | none =>
      have hblanks := blankFrom_blanks filled hw []
      rw [List.append_nil, blankFrom_nil, List.append_nil] at hblanks
      rw [List.nil_append, hblanks]
      exact .inr ⟨[], [], w, .blanks rfl, .blanks hw, rfl, rfl⟩
    | some m => exact hlast hw (hmark m rfl)
  | case2 c s ih =>
    rw [List.cons_append, blankFrom]
    by_cases hc : isQuote c = true
    · rw [if_pos hc] at ih ⊢
      have hmark : ∀ m ∈ some c, isQuote m = true := by
        rintro m ⟨⟩
        exact hc
      rcases ih hmark with ⟨-, -, -, hx, hy⟩ | h
      · exact .inr (sameButEnding_of_ofFillers hc hx hy)
      · exact .inr (h.append [c])
    · rw [if_neg hc] at ih ⊢
      rcases ih (by simp) with ⟨m, hm, -⟩ | h
      · exact absurd hm (by simp)
      · exact .inr (h.append [c])
  | case3 m c s ih =>
    have hrest := ((ih hmark).content filled c).content filled '\\'
    rw [List.cons_append, List.cons_append, blankFrom, List.append_assoc, List.append_assoc]
    exact hrest
  | case4 m s hs ih =>
    have hslash : m = '\\' → s ++ w = [] := by
      rintro rfl
      exact absurd (hmark _ rfl) (by decide)
    rw [List.cons_append, blankFrom_some_cons filled hslash, if_pos rfl]
    rcases ih (by simp) with ⟨m', hm', -⟩ | h
    · exact absurd hm' (by simp)
    · exact .inr (h.append [m])
  | case5 m c s hs hc ih =>
    have hcons : blankFrom filled (some m) (c :: (s ++ w)) =
        content (filled m) c ++ blankFrom filled (some m) (s ++ w) := by
      by_cases hslash : c = '\\'
      · subst hslash
        obtain rfl := eq_nil_of_backslash hs rfl
        exact blankFrom_backslash_blanks filled hw (hmark m rfl)
      · rw [blankFrom_some_cons filled fun h => absurd h hslash, if_neg hc]
    rw [List.cons_append, hcons]
    exact (ih hmark).content filled c

/-- Blanks at the end of a text change at most the ending of the blanked text. -/
theorem sameButEnding_blankFrom (hw : isBlankText w = true) (s : List Char) :
    SameButEnding (blankFrom filled none s) (blankFrom filled none (s ++ w)) := by
  rcases alike_blankFrom_append filled hw none (by simp) s with ⟨m, hm, -⟩ | h
  · exact absurd hm (by simp)
  · exact h

end SqlReview.Lexical

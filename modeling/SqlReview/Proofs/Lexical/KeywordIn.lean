import SqlReview.Proofs.Lexical.Written

/-!
# Keywords outside of literals

The rules look for keywords in upper case in a text in upper case whose literals are blanked. There
such a keyword, with the blanks behind it, stands where the text has the keyword in any case outside
of its literals. A span in backticks is no literal, and what stands in it counts as text.
-/

namespace SqlReview.Lexical

open SqlReview.Text SqlReview.Query

/-- The marks of literals. -/
def isLiteralMark (m : Char) : Bool :=
  m == apostrophe || m == doubleQuote

/-- The mark of a literal is a quotation mark. -/
theorem isQuote_of_isLiteralMark (m : Char) (h : isLiteralMark m = true) : isQuote m = true := by
  rw [isQuote, show (m == apostrophe || m == doubleQuote) = true from h, Bool.true_or]

private theorem blankLiterals_eq_written (s : List Char) :
    blankLiterals s = written isLiteralMark none s :=
  blankFrom_eq_written _ (by simp) s

/-- Whether a keyword in any case stands in a text, with `u` before it and `v` behind it: no literal
is open before it, and it does not go on with a word. -/
structure KeywordIn (keyword : String) (t u w v : List Char) : Prop where
  text : t = u ++ (w ++ v)
  outside : outside isLiteralMark (spanBehind none u) = true
  word : sameText w keyword.toList = true
  start : u.getLast?.any isWordChar = false

/-- Whether a keyword is written in capitals other than the one that fillers become. -/
def IsShown (keyword : String) : Prop :=
  keyword.toList ≠ [] ∧ ∀ c ∈ keyword.toList, isQuote c = false ∧ c ≠ 'X' ∧ c.toUpper = c

/-- Whether a keyword is shown is told from its characters. -/
instance : DecidablePred IsShown := fun keyword =>
  @instDecidableAnd _ _ inferInstance
    (decidableForallMem (fun c => isQuote c = false ∧ c ≠ 'X' ∧ c.toUpper = c) keyword.toList)

variable {keyword : String} {g r t u v w : List Char}

/-- Two texts one after the other are put in upper case one by one. -/
theorem upperAscii_append (s t : List Char) :
    upperAscii (s ++ t) = upperAscii s ++ upperAscii t :=
  List.map_append

/-- Blanks have no case. -/
theorem upperAscii_of_isBlankText (hg : isBlankText g = true) : upperAscii g = g := by
  have hblanks : ∀ c ∈ blanks, c.toUpper = c := by decide
  refine (List.map_congr_left fun c hc => ?_).trans (List.map_id g)
  exact hblanks c (mem_blanks (List.all_eq_true.mp hg c hc))

/-- No blank is a quotation mark. -/
theorem isQuote_of_isBlankText (hg : isBlankText g = true) : ∀ c ∈ g, isQuote c = false :=
  fun c hc => isQuote_of_isBlank (List.all_eq_true.mp hg c hc)

private theorem IsShown.upperAscii_eq (hk : IsShown keyword) :
    upperAscii keyword.toList = keyword.toList :=
  (List.map_congr_left fun c hc => (hk.2 c hc).2.2).trans (List.map_id _)

/-- What is a keyword up to case holds no quotation mark. -/
theorem IsShown.isQuote_of_sameText (hk : IsShown keyword)
    (hw : sameText w keyword.toList = true) : ∀ c ∈ w, isQuote c = false := by
  intro c hc
  have hmem : c.toUpper ∈ keyword.toList := by
    rw [← hk.upperAscii_eq, ← upperAscii_eq_of_sameText hw]
    exact List.mem_map_of_mem hc
  exact (Folding.upper.isQuote_of c).symm.trans (hk.2 _ hmem).1

/-- No literal is open behind a keyword and blanks. -/
theorem KeywordIn.outside_behind (hk : IsShown keyword) (h : KeywordIn keyword t u w (g ++ r))
    (hg : isBlankText g = true) :
    Lexical.outside isLiteralMark (spanBehind none (u ++ (w ++ g))) = true := by
  rw [spanBehind_append]
  refine outside_spanBehind h.outside fun c hc => ?_
  rcases List.mem_append.mp hc with hc | hc
  · exact hk.isQuote_of_sameText h.word c hc
  · exact isQuote_of_isBlankText hg c hc

/-- Whether a word goes on behind a text outside of literals is seen in the blanked text. -/
theorem any_getLast?_upperAscii_written (h : outside isLiteralMark (spanBehind none u) = true) :
    (upperAscii (written isLiteralMark none u)).getLast?.any isWordChar =
      u.getLast?.any isWordChar := by
  rw [upperAscii, List.getLast?_map, getLast?_written h]
  cases u.getLast? with
  | none => rfl
  | some c => exact (solid_isWordChar .upper).fold c

/-- A keyword and the blanks behind it stand in the blanked text where they stand in the text. -/
theorem KeywordIn.upperAscii_blankLiterals (hk : IsShown keyword)
    (h : KeywordIn keyword t u w (g ++ r)) (hg : isBlankText g = true) :
    upperAscii (blankLiterals t) = upperAscii (written isLiteralMark none u) ++
        (keyword.toList ++ (g ++
          upperAscii (written isLiteralMark (spanBehind none (u ++ (w ++ g))) r))) ∧
      (upperAscii (written isLiteralMark none u)).getLast?.any isWordChar = false := by
  refine ⟨?_, (any_getLast?_upperAscii_written h.outside).trans h.start⟩
  have hquote : ∀ c ∈ w ++ g, isQuote c = false := by
    intro c hc
    rcases List.mem_append.mp hc with hc | hc
    · exact hk.isQuote_of_sameText h.word c hc
    · exact isQuote_of_isBlankText hg c hc
  rw [blankLiterals_eq_written, h.text, ← List.append_assoc w,
    upperAscii_written_append h.outside hquote, ← List.append_assoc keyword.toList]
  congr 2
  rw [upperAscii_append, upperAscii_eq_of_sameText h.word, hk.upperAscii_eq,
    upperAscii_of_isBlankText hg]

/-- A keyword in upper case and the blanks behind it stand in the text where they stand in the
blanked text in upper case, the keyword in some case. -/
theorem exists_keywordIn (hk : IsShown keyword) (hg : isBlankText g = true)
    (hu : u.getLast?.any isWordChar = false)
    (h : upperAscii (blankLiterals t) = u ++ (keyword.toList ++ (g ++ v))) :
    ∃ p w r, KeywordIn keyword t p w (g ++ r) ∧ upperAscii (written isLiteralMark none p) = u ∧
      upperAscii (written isLiteralMark (spanBehind none (p ++ (w ++ g))) r) = v := by
  rw [blankLiterals_eq_written, ← List.append_assoc keyword.toList] at h
  have hquote : ∀ c ∈ keyword.toList ++ g, isQuote c = false ∧ c ≠ 'X' := by
    intro c hc
    rcases List.mem_append.mp hc with hc | hc
    · exact ⟨(hk.2 c hc).1, (hk.2 c hc).2.1⟩
    · refine ⟨isQuote_of_isBlankText hg c hc, ?_⟩
      rintro rfl
      exact absurd (List.all_eq_true.mp hg 'X' hc) (by decide)
  obtain ⟨p, x, r, rfl, hx, rfl, hout, rfl⟩ := exists_of_upperAscii_written_eq
    isQuote_of_isLiteralMark (by simp [hk.1]) hquote h
  obtain ⟨w, g', rfl, hw, hg'⟩ := List.map_eq_append_iff.mp hx
  have hblank : isBlankText g' = true := by
    rw [isBlankText_eq_of_sameText (sameText_upperAscii g'), upperAscii, hg', hg]
  obtain rfl : g' = g := (upperAscii_of_isBlankText hblank).symm.trans hg'
  refine ⟨p, w, r, ⟨by rw [List.append_assoc], hout, ?_, ?_⟩, rfl, rfl⟩
  · rw [← hw]
    exact sameText_upperAscii w
  · rw [← any_getLast?_upperAscii_written hout]
    exact hu

/-! ### Marks behind keywords -/

/-- The span that is open behind a mark, with a keyword and blanks before the mark. -/
def markSpan (u w g : List Char) (m : Char) : Option OpenSpan :=
  spanBehind none (u ++ (w ++ (g ++ [m])))

/-- The span behind a mark is told from the text, the keyword and the blanks before it. -/
theorem spanAfter_mark (u w g : List Char) (m : Char) :
    spanAfter (spanBehind none (u ++ (w ++ g))) m = markSpan u w g m := by
  have hsplit : u ++ (w ++ (g ++ [m])) = (u ++ (w ++ g)) ++ [m] := by simp
  rw [markSpan, hsplit, spanBehind_append none (u ++ (w ++ g))]
  rfl

variable {m : Char}

/-- A keyword, the blanks behind it and a mark stand in the blanked text where they stand in the
text. -/
theorem KeywordIn.upperAscii_blankLiterals_mark (hk : IsShown keyword) (hm : IsMark m)
    (h : KeywordIn keyword t u w (g ++ m :: v)) (hg : isBlankText g = true) :
    upperAscii (blankLiterals t) = upperAscii (written isLiteralMark none u) ++
        (keyword.toList ++ (g ++
          m :: upperAscii (written isLiteralMark (markSpan u w g m) v))) ∧
      (upperAscii (written isLiteralMark none u)).getLast?.any isWordChar = false := by
  obtain ⟨hsplit, hu⟩ := h.upperAscii_blankLiterals hk hg
  rw [written_cons_of_outside (h.outside_behind hk hg), spanAfter_mark] at hsplit
  have hcons : ∀ x, upperAscii (m :: x) = m :: upperAscii x := fun x =>
    congrArg (· :: upperAscii x) (Folding.upper.of_eq_self hm)
  exact ⟨by rw [hsplit, hcons], hu⟩

/-- They stand in the text where they stand in the blanked text in upper case. -/
theorem exists_keywordIn_mark (hk : IsShown keyword) (hm : IsMark m) (hg : isBlankText g = true)
    (hu : u.getLast?.any isWordChar = false)
    (h : upperAscii (blankLiterals t) = u ++ (keyword.toList ++ (g ++ m :: v))) :
    ∃ p w r, KeywordIn keyword t p w (g ++ m :: r) ∧
      upperAscii (written isLiteralMark (markSpan p w g m) r) = v := by
  obtain ⟨p, w, r, hin, -, hr⟩ := exists_keywordIn hk hg hu h
  cases r with
  | nil => exact absurd hr (by simp [written, upperAscii])
  | cons c r =>
    rw [written_cons_of_outside (hin.outside_behind hk hg)] at hr
    obtain ⟨hc, hv⟩ := List.cons.inj hr
    obtain rfl : c = m := (Folding.upper.of_eq_iff hm c).mp hc
    rw [spanAfter_mark] at hv
    exact ⟨p, w, r, hin, hv⟩

/-- The part of the blanked text up to a mark has as many bytes as that of the text. -/
theorem KeywordIn.byteLength_mark (h : KeywordIn keyword t u w (g ++ m :: v)) :
    byteLength (upperAscii (written isLiteralMark none u) ++ (keyword.toList ++ (g ++ [m]))) =
      byteLength (u ++ (w ++ (g ++ [m]))) := by
  have hword : byteLength keyword.toList = byteLength w := by
    rw [← byteLength_upperAscii w, upperAscii_eq_of_sameText h.word, byteLength_upperAscii]
  simp only [byteLength_append, byteLength_upperAscii, byteLength_written, hword]

end SqlReview.Lexical

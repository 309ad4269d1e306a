import Mathlib.Data.List.SplitBy
import SqlReview.Proofs.Lexical.Plain
import SqlReview.Proofs.Lexical.Whole

/-!
# What is read of a text without its comments

The reader takes from a text without its comments what it takes from the text outside of comments,
and for a closed comment the line feed or the space that the comment leaves behind. So it never
comes into a comment again, and it finds the quoted spans that it finds in the text.
-/

namespace SqlReview.Lexical

/-! ### Lexemes -/

/-- What becomes of a lexeme when comments are removed. What opens a comment and what stands in it
goes; the end of a comment becomes code. -/
def Lexeme.uncommented? (l : Lexeme) : Option Lexeme :=
  match l.region with
  | .code => if l.text = ['-', '-'] ∨ l.text = ['/', '*'] then none else some l
  | .quoted _ => some l
  | .lineComment => if l.text = ['\n'] then some ⟨.code, ['\n']⟩ else none
  | .blockComment => if l.text = ['*', '/'] then some ⟨.code, [' ']⟩ else none

/-- A character of code that opens no comment is a lexeme. -/
theorem lexemes_code_cons {c : Char} {s : List Char} (h : ¬ opensComment c s) :
    lexemes .code (c :: s) = ⟨.code, [c]⟩ :: lexemes (.afterCode c) s := by
  rw [lexemes]
  · rintro t rfl rfl
    exact h (.inl ⟨rfl, rfl⟩)
  · rintro t rfl rfl
    exact h (.inr ⟨rfl, rfl⟩)

/-- A character of a quoted span that takes none with it is a lexeme. -/
theorem lexemes_quoted_cons {mark c : Char} {s : List Char} (h : c = '\\' → s = []) :
    lexemes (.quoted mark) (c :: s) =
      ⟨.quoted mark, [c]⟩ :: lexemes (.afterQuoted mark c) s := by
  rw [lexemes]
  rintro d t rfl rfl
  exact List.cons_ne_nil d t (h rfl)

/-- The lexemes of a text without its comments are those of the text outside of comments. -/
theorem lexemes_removeFrom (r : Region) (s : List Char) :
    lexemes r.uncommented (removeFrom r s) = (lexemes r s).filterMap Lexeme.uncommented? := by
  fun_induction removeFrom r s with
  | case1 r => cases r <;> rfl
  | case2 s ih => exact ih
  | case3 s ih => exact ih
  | case4 c s hc hc' ih =>
    have hopens := not_opensComment hc hc'
    rw [uncommented_afterCode] at ih
    change lexemes .code _ = _
    rw [lexemes_code_cons (not_opensComment_removeFrom hopens), lexemes_code_cons hopens, ih,
      List.filterMap_cons_some (b := ⟨.code, [c]⟩) (by simp [Lexeme.uncommented?])]
  | case5 mark c s ih => exact congrArg (_ :: ·) ih
  | case6 mark c s hc ih =>
    have hslash : c = '\\' → s = [] := eq_nil_of_backslash hc
    have hlast : c = '\\' → removeFrom (.afterQuoted mark c) s = [] := by
      intro hback
      rw [hslash hback, removeFrom_nil]
    rw [uncommented_afterQuoted] at ih
    change lexemes (.quoted mark) _ = _
    rw [lexemes_quoted_cons hlast, lexemes_quoted_cons hslash, ih]
    rfl
  | case7 s ih =>
    change lexemes .code _ = _ at ih ⊢
    rw [lexemes_code_cons (by simp [opensComment]), lexemes, if_pos rfl]
    exact congrArg (_ :: ·) ih
  | case8 c s hc ih =>
    rw [lexemes, if_neg hc, List.filterMap_cons_none (by simp [Lexeme.uncommented?, hc])]
    exact ih
  | case9 s ih =>
    change lexemes .code _ = _ at ih ⊢
    rw [lexemes_code_cons (by simp [opensComment]), lexemes]
    exact congrArg (_ :: ·) ih
  | case10 c s hc ih =>
    rw [lexemes, List.filterMap_cons_none (by simp [Lexeme.uncommented?])]
    · exact ih
    · exact hc

/-! ### Comments -/

/-- Whether a region lies in a comment. -/
def Region.inComment : Region → Bool
  | .lineComment | .blockComment => true
  | .code | .quoted _ => false

/-- A text without its comments leaves the reader where the text leaves it, but for a comment. -/
theorem after_removeFrom (r : Region) (s : List Char) :
    r.uncommented.after (removeFrom r s) = (r.after s).uncommented := by
  fun_induction removeFrom r s with
  | case1 r => cases r <;> rfl
  | case2 s ih => exact ih
  | case3 s ih => exact ih
  | case4 c s hc hc' ih =>
    have hopens := not_opensComment hc hc'
    rw [uncommented_afterCode] at ih
    change Region.code.after _ = _
    rw [after_code_cons (not_opensComment_removeFrom hopens), after_code_cons hopens, ih]
  | case5 mark c s ih => exact ih
  | case6 mark c s hc ih =>
    have hslash : c = '\\' → s = [] := eq_nil_of_backslash hc
    have hlast : c = '\\' → removeFrom (.afterQuoted mark c) s = [] := by
      intro hback
      rw [hslash hback, removeFrom_nil]
    rw [uncommented_afterQuoted] at ih
    change (Region.quoted mark).after _ = _
    rw [after_quoted_cons hlast, after_quoted_cons hslash, ih]
  | case7 s ih => exact ih
  | case8 c s hc ih =>
    rw [Region.after, if_neg hc]
    exact ih
  | case9 s ih => exact ih
  | case10 c s hc ih =>
    rw [Region.after]
    · exact ih
    · exact hc

private theorem Plain.inComment_after {s : List Char} (h : Plain s) :
    (Region.code.after s).inComment = false := by
  have hafter := after_removeFrom .code s
  change Region.code.after (removeComments s) = _ at hafter
  rw [h] at hafter
  rw [hafter]
  cases Region.code.after s <;> rfl

/-! ### Quoted spans -/

/-- Whether a lexeme belongs to a quoted span. The mark that opens a span stands in code. -/
def Lexeme.inSpan (l : Lexeme) : Bool :=
  match l.region with
  | .code => l.text.any isQuote
  | .quoted _ => true
  | _ => false

/-- The quoted spans of a text one after the other, each as it is written, with its marks and its
escapes. A new span begins wherever a mark stands in code. -/
def quotedSpans (s : List Char) : List (List Char) :=
  (((lexemes .code s).filter Lexeme.inSpan).splitBy fun _ l => l.region != .code).map
    (·.flatMap Lexeme.text)

/-- Outside of a span the first lexeme of a span is the mark that opens it. -/
theorem region_head?_inSpan {r : Region} (hr : r.uncommented = .code) (s : List Char) :
    ∀ l ∈ ((lexemes r s).filter Lexeme.inSpan).head?, l.region = .code := by
  fun_induction lexemes r s with
  | case1 r => simp
  | case2 s ih => exact ih rfl
  | case3 s ih => exact ih rfl
  | case4 c s hc hc' ih =>
    by_cases hquote : isQuote c = true
    · have hopens : Lexeme.inSpan ⟨.code, [c]⟩ = true := by simp [Lexeme.inSpan, hquote]
      rw [List.filter_cons_of_pos hopens]
      intro l hl
      obtain rfl := Option.some.inj hl
      rfl
    · have hopens : ¬ Lexeme.inSpan ⟨.code, [c]⟩ = true := by simp [Lexeme.inSpan, hquote]
      rw [List.filter_cons_of_neg hopens]
      refine ih ?_
      rw [Region.afterCode, if_neg hquote]
      rfl
  | case5 mark c s ih => exact absurd hr (by simp [Region.uncommented])
  | case6 mark c s hc ih => exact absurd hr (by simp [Region.uncommented])
  | case7 c s ih => exact ih (by split <;> rfl)
  | case8 s ih => exact ih rfl
  | case9 c s hc ih => exact ih rfl

/-- The lexemes of a span after its opening mark make up its content and its closing mark. -/
theorem SpanText.lexemes {m : Char} (hm : isQuote m = true) {inside : List Char}
    (h : SpanText m inside) (z : List Char) :
    ∃ ls, lexemes (.quoted m) (inside ++ m :: z) = ls ++ Lexical.lexemes .code z ∧
      (∀ l ∈ ls, l.region = .quoted m) ∧ ls.flatMap Lexeme.text = inside ++ [m] := by
  induction h with
  | nil =>
    refine ⟨[⟨.quoted m, [m]⟩], ?_, by simp, rfl⟩
    rw [List.nil_append, lexemes_quoted_cons fun h => absurd h (ne_backslash_of_isQuote hm),
      Region.afterQuoted, if_pos rfl]
    rfl
  | @char c s hc hslash _ ih =>
    obtain ⟨ls, hls, hregion, htext⟩ := ih
    refine ⟨⟨.quoted m, [c]⟩ :: ls, ?_, by simpa using hregion, congrArg (c :: ·) htext⟩
    rw [List.cons_append, lexemes_quoted_cons fun h => absurd h hslash, Region.afterQuoted,
      if_neg hc, hls]
    rfl
  | @escape c s _ ih =>
    obtain ⟨ls, hls, hregion, htext⟩ := ih
    exact ⟨⟨.quoted m, [backslash, c]⟩ :: ls, congrArg (_ :: ·) hls, by simpa using hregion,
      congrArg (backslash :: c :: ·) htext⟩

/-- A span behind a text that leaves the reader in code is told as it is written, after the spans of
this text and before those of the rest. -/
theorem quotedSpans_span {p : List Char} (hp : Region.code.after p = .code) {m : Char}
    (hm : isQuote m = true) {inside : List Char} (h : SpanText m inside) (z : List Char) :
    quotedSpans (p ++ m :: (inside ++ m :: z)) =
      quotedSpans p ++ (m :: (inside ++ [m])) :: quotedSpans z := by
  have hne := ne_of_isQuote hm
  obtain ⟨ls, hls, hregion, htext⟩ := h.lexemes hm z
  have hmark : lexemes .code (m :: (inside ++ m :: z)) =
      (⟨.code, [m]⟩ :: ls) ++ lexemes .code z := by
    rw [lexemes_code_cons (not_opensComment_of_isQuote hm _), Region.afterCode, if_pos hm, hls]
    rfl
  have hspan : (⟨.code, [m]⟩ :: ls : List Lexeme).filter Lexeme.inSpan = ⟨.code, [m]⟩ :: ls := by
    rw [List.filter_eq_self]
    intro l hl
    rcases List.mem_cons.mp hl with rfl | hl
    · simp [Lexeme.inSpan, hm]
    · rw [Lexeme.inSpan, hregion l hl]
  have hchain : (⟨.code, [m]⟩ :: ls : List Lexeme).IsChain fun _ l => l.region != .code := by
    refine List.Pairwise.isChain (List.pairwise_cons.mpr ⟨?_, ?_⟩)
    · intro l hl
      rw [hregion l hl]
      rfl
    · refine List.pairwise_of_forall_mem_list fun _ _ l hl => ?_
      rw [hregion l hl]
      rfl
  have hrest : ∀ l ∈ ((lexemes .code z).filter Lexeme.inSpan).head?,
      (l.region != .code) = false := by
    intro l hl
    rw [region_head?_inSpan rfl z l hl]
    rfl
  rw [quotedSpans, lexemes_append (r := .code) trivial p (by simp [hne.1]) (by simp [hne.2.1]) hp,
    hmark, List.filter_append, List.filter_append, hspan, List.cons_append,
    List.splitBy_append_cons _ fun _ _ => rfl, ← List.cons_append,
    List.splitBy_append fun _ _ => hrest, List.splitBy_of_isChain (List.cons_ne_nil _ _) hchain,
    List.map_append, List.map_append, List.map_singleton, List.flatMap_cons, htext]
  rfl

/-- Removing comments neither takes a lexeme out of a span nor puts one into it. -/
theorem filter_inSpan_uncommented (ls : List Lexeme) :
    (ls.filterMap Lexeme.uncommented?).filter Lexeme.inSpan = ls.filter Lexeme.inSpan := by
  have hone : ∀ l : Lexeme, l.uncommented?.filter Lexeme.inSpan = Option.guard Lexeme.inSpan l := by
    rintro ⟨region, text⟩
    cases region with
    | code =>
      by_cases h : text = ['-', '-'] ∨ text = ['/', '*']
      · rcases h with rfl | rfl <;> rfl
      · simp [Lexeme.uncommented?, h, Option.guard, Option.filter]
    | quoted mark => rfl
    | lineComment => by_cases h : text = ['\n'] <;> simp [Lexeme.uncommented?, h] <;> rfl
    | blockComment => by_cases h : text = ['*', '/'] <;> simp [Lexeme.uncommented?, h] <;> rfl
  rw [List.filter_filterMap, funext hone, List.filterMap_eq_filter]

/-- Comments are removed for good and nothing is touched in quotes: to remove them again changes
nothing, at no place in what is left does the reader stand in a comment, and the quoted spans of
what is left are those of the text, as they were written and in their order. -/
theorem removeComments_idempotent_and_keeps_spans (s : List Char) :
    removeComments (removeComments s) = removeComments s ∧
      (∀ n, (Region.code.after ((removeComments s).take n)).inComment = false) ∧
      quotedSpans (removeComments s) = quotedSpans s := by
  refine ⟨plain_removeComments s, ?_, ?_⟩
  · intro n
    have hplain : Plain ((removeComments s).take n ++ (removeComments s).drop n) := by
      rw [List.take_append_drop]
      exact plain_removeComments s
    exact hplain.of_append.inComment_after
  · have hlexemes := lexemes_removeFrom .code s
    change lexemes .code (removeComments s) = _ at hlexemes
    rw [quotedSpans, hlexemes, filter_inSpan_uncommented]
    rfl

example : quotedSpans "a -- 'b'\n'c--\\'' \"d".toList = ["'c--\\''".toList, "\"d".toList] := by
  decide

end SqlReview.Lexical

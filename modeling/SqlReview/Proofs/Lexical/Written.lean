import SqlReview.Proofs.Lexical.Blanked
import SqlReview.Proofs.Text.Folding

/-!
# Blanked texts character by character

What is no filler and no quotation mark in a blanked text stands outside of the blanked spans, and
so it stands in the text as well. What is outside of them in the text is there in the blanked text,
in upper case if the blanked text is put in upper case.
-/

namespace SqlReview.Lexical

open SqlReview.Text SqlReview.Query

variable (filled : Char → Bool)

/-! ### The span behind a text -/

/-- The span that is open behind a text, given the one that is open before it. -/
def spanBehind (span : Option OpenSpan) (s : List Char) : Option OpenSpan :=
  s.foldl spanAfter span

/-- Whether no span with one of the chosen marks is open. -/
def outside (span : Option OpenSpan) : Bool :=
  span.all fun q => !filled q.mark

/-- The span that is open behind two texts is told from that behind the first. -/
theorem spanBehind_append (span : Option OpenSpan) (u v : List Char) :
    spanBehind span (u ++ v) = spanBehind (spanBehind span u) v :=
  List.foldl_append

/-- A text is blanked in parts. -/
theorem written_append (span : Option OpenSpan) (u v : List Char) :
    written filled span (u ++ v) =
      written filled span u ++ written filled (spanBehind span u) v := by
  induction u generalizing span with
  | nil => rfl
  | cons c u ih =>
    rw [List.cons_append, written, written, ih, List.append_assoc]
    rfl

/-- A blanked text has as many bytes as the text. -/
theorem byteLength_written (span : Option OpenSpan) (s : List Char) :
    byteLength (written filled span s) = byteLength s := by
  induction s generalizing span with
  | nil => rfl
  | cons c s ih => rw [written, byteLength_append, byteLength_content, ih, byteLength_cons]

variable {filled} {span : Option OpenSpan} {c : Char} {t u v w : List Char}

/-! ### Outside of the chosen spans -/

private theorem isContent_of_outside (h : outside filled span = true) (c : Char) :
    isContent filled span c = false := by
  cases span with
  | none => rfl
  | some q =>
    have hfilled : filled q.mark = false := by simpa [outside] using h
    rw [isContent, hfilled, Bool.false_and]

/-- Outside of the chosen spans a character is written as it stands. -/
theorem written_cons_of_outside (h : outside filled span = true) (c : Char) (s : List Char) :
    written filled span (c :: s) = c :: written filled (spanAfter span c) s := by
  rw [written, isContent_of_outside h]
  rfl

/-- Only a quotation mark leads into a chosen span. -/
theorem outside_spanAfter (h : outside filled span = true) (hc : isQuote c = false) :
    outside filled (spanAfter span c) = true := by
  cases span with
  | none =>
    rw [spanAfter, if_neg (Bool.eq_false_iff.mp hc)]
    rfl
  | some q =>
    rw [spanAfter]
    cases hn : q.next c with
    | none => rfl
    | some r =>
      change (!filled r.mark) = true
      rw [mark_next hn]
      exact h

/-- Without quotation marks no span is opened. -/
theorem outside_spanBehind (h : outside filled span = true) (hw : ∀ c ∈ w, isQuote c = false) :
    outside filled (spanBehind span w) = true := by
  induction w generalizing span with
  | nil => exact h
  | cons c w ih =>
    exact ih (outside_spanAfter h (hw c (List.mem_cons_self ..)))
      fun d hd => hw d (List.mem_cons_of_mem c hd)

/-- Outside of the chosen spans a text without quotation marks is written as it stands. -/
theorem written_unquoted_append (h : outside filled span = true)
    (hw : ∀ c ∈ w, isQuote c = false) (v : List Char) :
    written filled span (w ++ v) = w ++ written filled (spanBehind span w) v := by
  induction w generalizing span with
  | nil => rfl
  | cons c w ih =>
    rw [List.cons_append, written_cons_of_outside h,
      ih (outside_spanAfter h (hw c (List.mem_cons_self ..)))
        fun d hd => hw d (List.mem_cons_of_mem c hd)]
    rfl

/-- What stands first in a blanked text stands first in the text, outside of the chosen spans. -/
theorem exists_of_written_eq_append (h : outside filled span = true)
    (hw : ∀ c ∈ w, isQuote c = false) (heq : written filled span t = w ++ v) :
    ∃ r, t = w ++ r ∧ written filled (spanBehind span w) r = v := by
  induction w generalizing span t with
  | nil => exact ⟨t, rfl, heq⟩
  | cons c w ih =>
    cases t with
    | nil => exact absurd heq (by simp [written])
    | cons d t =>
      rw [written_cons_of_outside h] at heq
      obtain ⟨rfl, hrest⟩ := List.cons.inj heq
      obtain ⟨r, rfl, hr⟩ := ih (outside_spanAfter h (hw d (List.mem_cons_self ..)))
        (fun e he => hw e (List.mem_cons_of_mem d he)) hrest
      exact ⟨r, rfl, hr⟩

/-- A character that is no content and no quotation mark is outside of the chosen spans. -/
theorem outside_of_isContent (hfilled : ∀ m, filled m = true → isQuote m = true)
    (h : isContent filled span c = false) (hc : isQuote c = false) :
    outside filled span = true := by
  cases span with
  | none => rfl
  | some q =>
    change (!filled q.mark) = true
    rw [Bool.not_eq_true', Bool.eq_false_iff]
    intro hq
    have hnext : q.next c = none := by simpa [isContent, hq] using h
    rw [eq_mark_of_next hnext, hfilled _ hq] at hc
    exact Bool.noConfusion hc

/-- What is no filler and no quotation mark in a blanked text stands in the text, outside of the
chosen spans, and behind as much of it. -/
theorem exists_of_written_eq (hfilled : ∀ m, filled m = true → isQuote m = true) (hne : w ≠ [])
    (hw : ∀ c ∈ w, isQuote c = false ∧ c ≠ filler) (heq : written filled span t = u ++ (w ++ v)) :
    ∃ p r, t = p ++ (w ++ r) ∧ written filled span p = u ∧
      outside filled (spanBehind span p) = true ∧
      written filled (spanBehind span (p ++ w)) r = v := by
  induction t generalizing span u with
  | nil =>
    have hnil : w = [] := (List.append_eq_nil_iff.mp (List.append_eq_nil_iff.mp heq.symm).2).1
    exact absurd hnil hne
  | cons c t ih =>
    have hrest : ∀ u', u = content (isContent filled span c) c ++ u' →
        written filled (spanAfter span c) t = u' ++ (w ++ v) → ∃ p r, c :: t = p ++ (w ++ r) ∧
          written filled span p = u ∧ outside filled (spanBehind span p) = true ∧
          written filled (spanBehind span (p ++ w)) r = v := by
      rintro u' rfl ht
      obtain ⟨p, r, rfl, rfl, hout, hr⟩ := ih ht
      exact ⟨c :: p, r, rfl, rfl, hout, hr⟩
    rw [written] at heq
    rcases List.append_eq_append_iff.mp heq with ⟨u', hu, ht⟩ | ⟨x, hcontent, hx⟩
    · exact hrest u' hu ht
    · cases x with
      | nil => exact hrest [] (by rw [hcontent, List.append_nil, List.append_nil]) hx.symm
      | cons d x =>
        obtain ⟨e, w, rfl⟩ := List.exists_cons_of_ne_nil hne
        obtain ⟨rfl, htail⟩ := List.cons.inj hx
        obtain ⟨hquote, hfiller⟩ := hw e (List.mem_cons_self ..)
        -- the word begins in what is written for the character, which is therefore no filler
        have hshown : isContent filled span c = false := by
          rw [Bool.eq_false_iff]
          intro hinside
          rw [hinside] at hcontent
          have hmem : e ∈ content true c := hcontent ▸ by simp
          exact hfiller (List.eq_of_mem_replicate hmem)
        rw [hshown] at hcontent
        obtain ⟨rfl, hcons⟩ : u = [] ∧ e :: x = [c] := by
          cases u with
          | nil => exact ⟨rfl, hcontent.symm⟩
          | cons f u => exact absurd (List.cons.inj hcontent).2 (by simp)
        obtain ⟨rfl, rfl⟩ := List.cons.inj hcons
        have hout := outside_of_isContent hfilled hshown hquote
        have htext : written filled span (e :: t) = e :: w ++ v := by
          rw [written_cons_of_outside hout, List.cons_append]
          exact congrArg (e :: ·) htail.symm
        obtain ⟨r, hr, hv⟩ := exists_of_written_eq_append hout (fun d hd => (hw d hd).1) htext
        exact ⟨[], r, hr, rfl, hout, hv⟩

/-- Outside of the chosen spans a blanked text ends as the text does. -/
theorem getLast?_written (h : outside filled (spanBehind span u) = true) :
    (written filled span u).getLast? = u.getLast? := by
  rcases List.eq_nil_or_concat u with rfl | ⟨p, c, rfl⟩
  · rfl
  · rw [List.concat_eq_append] at h ⊢
    have hshown : isContent filled (spanBehind span p) c = false := by
      rw [spanBehind_append] at h
      cases hp : spanBehind span p with
      | none => rfl
      | some q =>
        rw [hp] at h
        change outside filled (q.next c) = true at h
        rw [isContent]
        cases hn : q.next c with
        | none => rw [Option.isSome_none, Bool.and_false]
        | some r =>
          rw [hn] at h
          have hmark : filled r.mark = false := by simpa [outside] using h
          rw [← mark_next hn, hmark, Bool.false_and]
    rw [written_append, written, hshown]
    simp [content, written]

/-! ### Upper case -/

/-- What is no filler and no quotation mark in a blanked text in upper case stands in the text in
some case, outside of the chosen spans, and behind as much of it. -/
theorem exists_of_upperAscii_written_eq (hfilled : ∀ m, filled m = true → isQuote m = true)
    (hne : w ≠ []) (hw : ∀ c ∈ w, isQuote c = false ∧ c ≠ 'X')
    (heq : upperAscii (written filled span t) = u ++ (w ++ v)) :
    ∃ p x r, t = p ++ (x ++ r) ∧ upperAscii x = w ∧ upperAscii (written filled span p) = u ∧
      outside filled (spanBehind span p) = true ∧
      upperAscii (written filled (spanBehind span (p ++ x)) r) = v := by
  obtain ⟨u, y, hu, rfl, hy⟩ := List.map_eq_append_iff.mp heq
  obtain ⟨x, v, rfl, rfl, rfl⟩ := List.map_eq_append_iff.mp hy
  have hx : ∀ c ∈ x, isQuote c = false ∧ c ≠ filler := by
    intro c hc
    obtain ⟨hquote, hfiller⟩ := hw c.toUpper (List.mem_map_of_mem hc)
    refine ⟨(Folding.upper.isQuote_of c).symm.trans hquote, ?_⟩
    rintro rfl
    exact hfiller rfl
  obtain ⟨p, r, rfl, rfl, hout, rfl⟩ := exists_of_written_eq hfilled (by simpa using hne) hx hu
  exact ⟨p, x, r, rfl, rfl, rfl, hout, rfl⟩

/-- What stands in a text outside of the chosen spans stands in the blanked text in upper case. -/
theorem upperAscii_written_append (hout : outside filled (spanBehind span u) = true)
    (hw : ∀ c ∈ w, isQuote c = false) (v : List Char) :
    upperAscii (written filled span (u ++ (w ++ v))) =
      upperAscii (written filled span u) ++ (upperAscii w ++
        upperAscii (written filled (spanBehind span (u ++ w)) v)) := by
  rw [written_append, written_unquoted_append hout hw, spanBehind_append]
  simp only [upperAscii, List.map_append]

end SqlReview.Lexical

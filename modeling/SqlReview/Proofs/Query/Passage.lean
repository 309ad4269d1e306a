import SqlReview.Proofs.Lexical.Whole
import SqlReview.Proofs.Query.Prologue

/-!
# Passages

A passage is a text that a scan for the main query gets through: it closes its spans, and no
`SELECT` stands outside of its parentheses. What the scan does after a passage depends on the
passage only through the number of parentheses that are open then. The text before a main query is
a passage.
-/

namespace SqlReview.Query

open SqlReview.Text SqlReview.Lexical

/-- Whether a character outside of spans is neither a parenthesis nor part of a name. -/
def isIdle (c : Char) : Bool :=
  !isQuote c && c != '(' && c != ')' && !isNameChar c

/-- A text that leads a scan for the main query from one number of open parentheses to another. -/
inductive Passage : (before : Nat) → List Char → (after : Nat) → Prop
  | nil {d : Nat} : Passage d [] d
  | opening {d e : Nat} {s : List Char} : Passage (d + 1) s e → Passage d ('(' :: s) e
  | closing {d e : Nat} {s : List Char} : Passage (d - 1) s e → Passage d (')' :: s) e
  | span {d e : Nat} {m : Char} {inside s : List Char} :
      isQuote m = true → SpanText m inside → Passage d s e → Passage d (m :: (inside ++ m :: s)) e
  | word {d e : Nat} {w s : List Char} :
      w ≠ [] → (∀ c ∈ w, isNameChar c = true) → (d = 0 → sameText w "SELECT".toList = false) →
      startsInName s = false → Passage d s e → Passage d (w ++ s) e
  | idle {d e : Nat} {c : Char} {s : List Char} :
      isIdle c = true → Passage d s e → Passage d (c :: s) e

/-- An idle character is no quotation mark, no parenthesis and in no name. -/
theorem ne_of_isIdle {c : Char} (h : isIdle c = true) :
    isQuote c = false ∧ (c == '(') = false ∧ (c == ')') = false ∧ isNameChar c = false := by
  simpa [isIdle, and_assoc] using h

/-- A passage closes its spans. -/
theorem Passage.whole {d e : Nat} {p : List Char} (h : Passage d p e) : Whole p := by
  induction h with
  | nil => exact .nil
  | opening _ ih => exact .char (by decide) ih
  | closing _ ih => exact .char (by decide) ih
  | span hm hinside _ ih => exact .span hm hinside ih
  | word _ hw _ _ _ ih =>
    exact (Whole.of_forall fun c hc => (ne_of_isNameChar (hw c hc)).1).append ih
  | idle hc _ ih => exact .char (ne_of_isIdle hc).1 ih

/-! ### The steps of a scan -/

variable {w s t : List Char}

/-- The last character of a part is the last one of the text. -/
theorem getLast?_any_of_append {cls : Char → Bool} {x s : List Char}
    (h : (x ++ s).getLast?.any cls = false) : s.getLast?.any cls = false := by
  rw [List.getLast?_append] at h
  cases hs : s.getLast? with
  | none => rfl
  | some c =>
    rw [hs] at h
    exact h

private theorem getLast?_any_append {cls : Char → Bool} {x s : List Char}
    (hx : x.getLast?.any cls = false) (hs : s.getLast?.any cls = false) :
    (x ++ s).getLast?.any cls = false := by
  rw [List.getLast?_append]
  cases h : s.getLast? with
  | none => exact hx
  | some c =>
    rw [h] at hs
    exact hs

/-- No name goes on after a word, whether the text ends with the word or not. -/
theorem startsInName_append_of_word (hne : w ≠ []) (hw : ∀ c ∈ w, isNameChar c = true)
    (hs : startsInName s = false) {z : List Char}
    (h : startsInName z = false ∨ (w ++ s).getLast?.any isNameChar = false) :
    startsInName (s ++ z) = false := by
  cases s with
  | cons c s => exact hs
  | nil =>
    refine h.elim id fun hlast => ?_
    rw [List.append_nil, List.getLast?_eq_some_getLast hne, Option.any_some,
      hw _ (List.getLast_mem hne)] at hlast
    exact Bool.noConfusion hlast

/-- A scan takes a whole word at once. -/
theorem selectFrom_wholeWord (hne : w ≠ []) (hw : ∀ c ∈ w, isNameChar c = true)
    (hs : startsInName s = false) (d : Nat) :
    selectFrom d none false (w ++ s) =
      if d = 0 ∧ sameText w "SELECT".toList then some (w ++ s) else selectFrom d none false s := by
  obtain ⟨c, w, rfl⟩ := List.exists_cons_of_ne_nil hne
  have hc := hw c (List.mem_cons_self ..)
  have htail : ∀ e ∈ w, isNameChar e = true := fun e he => hw e (List.mem_cons_of_mem c he)
  obtain ⟨hquote, hopen, hclose, -⟩ := ne_of_isNameChar hc
  have hkey : startsWith "SELECT" (c :: w ++ s) = sameText (c :: w) "SELECT".toList :=
    startsWith_word (by decide) hw hs
  rw [List.cons_append] at hkey
  have hrest : selectFrom d none true (w ++ s) = selectFrom d none false s := by
    rw [selectFrom_nameChars htail, selectFrom_inName hs]
  rw [List.cons_append, selectFrom, hquote, hopen, hclose, hkey, hc, hrest]
  simp only [Bool.false_eq_true, if_false, Bool.not_false, Bool.and_true, Bool.and_eq_true,
    beq_iff_eq]

/-- A scan passes over a character that is idle. -/
theorem selectFrom_idle {c : Char} (hc : isIdle c = true) (d : Nat) (s : List Char) :
    selectFrom d none false (c :: s) = selectFrom d none false s := by
  obtain ⟨hquote, hopen, hclose, hname⟩ := ne_of_isIdle hc
  have hkey : startsWith "SELECT" (c :: s) = sameText [] "SELECT".toList :=
    startsWith_word (w := []) (by decide) (by simp) hname
  rw [selectFrom, hquote, hopen, hclose, hname, hkey]
  simp [sameText, lowerAscii]

/-- A span ends after its content. -/
theorem rest?_spanText {m : Char} (hm : isQuote m = true) {inside : List Char}
    (h : SpanText m inside) (t : List Char) :
    OpenSpan.rest? { mark := m } (inside ++ m :: t) = some t := by
  induction h with
  | nil => rw [List.nil_append, OpenSpan.rest?, next_mark hm]
  | char hc hslash _ ih => rw [List.cons_append, rest?_cons (next_of_ne hc hslash), ih]
  | @escape c s _ ih => exact (rest?_escape hm false c (s ++ m :: t)).trans ih

/-- What follows a span comes after its content and its mark. -/
theorem exists_of_rest? {m : Char} (hm : isQuote m = true) {s t : List Char}
    (h : OpenSpan.rest? { mark := m } s = some t) :
    ∃ inside, s = inside ++ m :: t ∧ SpanText m inside := by
  induction hn : s.length using Nat.strongRecOn generalizing s with
  | ind n ih =>
    cases s with
    | nil => exact absurd h (by simp [OpenSpan.rest?])
    | cons c s =>
      rw [List.length_cons] at hn
      by_cases hmark : c = m
      · rw [hmark, OpenSpan.rest?, next_mark hm] at h
        obtain rfl := Option.some.inj h
        exact ⟨[], by rw [hmark]; rfl, .nil⟩
      · by_cases hslash : c = backslash
        · subst hslash
          cases s with
          | nil => exact absurd h (by simp [OpenSpan.rest?, OpenSpan.next])
          | cons e s =>
            rw [List.length_cons] at hn
            obtain ⟨inside, rfl, hinside⟩ := ih s.length (by omega)
              ((rest?_escape hm false e s).symm.trans h) rfl
            exact ⟨backslash :: e :: inside, rfl, .escape hinside⟩
        · rw [rest?_cons (next_of_ne hmark hslash)] at h
          obtain ⟨inside, rfl, hinside⟩ := ih s.length (by omega) h rfl
          exact ⟨c :: inside, rfl, .char hmark hslash hinside⟩

/-- A scan passes over a span. -/
theorem selectFrom_spanText {m : Char} (hm : isQuote m = true) {inside : List Char}
    (h : SpanText m inside) (d : Nat) (b : Bool) (t : List Char) :
    selectFrom d none b (m :: (inside ++ m :: t)) = selectFrom d none false t := by
  have hspan : isQuote (OpenSpan.mark { mark := m }) = true := hm
  rw [selectFrom, if_pos hm, selectFrom_span hspan, rest?_spanText hm h, Option.bind_some]

/-- A text is scanned by parentheses, spans, words and characters that are idle. -/
@[elab_as_elim]
theorem scan_induction {motive : List Char → Prop} (nil : motive [])
    (opening : ∀ s, motive s → motive ('(' :: s))
    (closing : ∀ s, motive s → motive (')' :: s))
    (span : ∀ m inside s, isQuote m = true → SpanText m inside → motive s →
      motive (m :: (inside ++ m :: s)))
    (unclosed : ∀ m s, isQuote m = true → OpenSpan.rest? { mark := m } s = none → motive (m :: s))
    (word : ∀ w s, w ≠ [] → (∀ c ∈ w, isNameChar c = true) → startsInName s = false → motive s →
      motive (w ++ s))
    (idle : ∀ c s, isIdle c = true → motive s → motive (c :: s)) (s : List Char) : motive s := by
  induction hn : s.length using Nat.strongRecOn generalizing s with
  | ind n ih =>
    cases s with
    | nil => exact nil
    | cons c s =>
      rw [List.length_cons] at hn
      by_cases hquote : isQuote c = true
      · cases hrest : OpenSpan.rest? { mark := c } s with
        | none => exact unclosed c s hquote hrest
        | some t =>
          obtain ⟨inside, rfl, hinside⟩ := exists_of_rest? hquote hrest
          rw [List.length_append, List.length_cons] at hn
          exact span c inside t hquote hinside (ih t.length (by omega) t rfl)
      by_cases hopen : c = '('
      · exact hopen ▸ opening s (ih s.length (by omega) s rfl)
      by_cases hclose : c = ')'
      · exact hclose ▸ closing s (ih s.length (by omega) s rfl)
      by_cases hname : isNameChar c = true
      · have hshort := (s.dropWhile_sublist isNameChar).length_le
        have htail : c :: s = (c :: s.takeWhile isNameChar) ++ s.dropWhile isNameChar := by
          rw [List.cons_append, List.takeWhile_append_dropWhile]
        rw [htail]
        refine word _ _ (List.cons_ne_nil _ _) ?_ (startsInName_dropWhile s)
          (ih _ (by omega) _ rfl)
        intro d hd
        rcases List.mem_cons.mp hd with rfl | hd
        · exact hname
        · exact List.all_eq_true.mp List.all_takeWhile d hd
      · have hidle : isIdle c = true := by simp [isIdle, hquote, hopen, hclose, hname]
        exact idle c s hidle (ih s.length (by omega) s rfl)

/-! ### Scans over a passage -/

/-- After a passage a scan goes on with the parentheses that are open then. -/
theorem Passage.selectFrom {d e : Nat} {p : List Char} (h : Passage d p e) {z : List Char}
    (hz : startsInName z = false ∨ p.getLast?.any isNameChar = false) :
    selectFrom d none false (p ++ z) = selectFrom e none false z := by
  have htail : ∀ {x s : List Char},
      startsInName z = false ∨ (x ++ s).getLast?.any isNameChar = false →
      startsInName z = false ∨ s.getLast?.any isNameChar = false :=
    fun h => h.imp_right getLast?_any_of_append
  induction h with
  | nil => rfl
  | @opening d e s _ ih => exact ih (htail (x := ['(']) hz)
  | @closing d e s _ ih => exact ih (htail (x := [')']) hz)
  | @span d e m inside s hm hinside _ ih =>
    rw [List.cons_append, List.append_assoc, List.cons_append, selectFrom_spanText hm hinside]
    refine ih (htail (x := m :: (inside ++ [m])) ?_)
    simpa using hz
  | @word d e w s hne hw hselect hs _ ih =>
    have hrest := startsInName_append_of_word hne hw hs hz
    rw [List.append_assoc, selectFrom_wholeWord hne hw hrest, if_neg]
    · exact ih (htail hz)
    · rintro ⟨hd, hword⟩
      rw [hselect hd] at hword
      exact Bool.noConfusion hword
  | @idle d e c s hc _ ih =>
    rw [List.cons_append, selectFrom_idle hc]
    exact ih (htail (x := [c]) hz)

/-- A scan finds no more than its text. -/
theorem length_selectFrom_le {d : Nat} {span : Option OpenSpan} {b : Bool} {s t : List Char}
    (h : selectFrom d span b s = some t) : t.length ≤ s.length := by
  fun_induction selectFrom d span b s with
  | case1 => exact absurd h (by simp)
  | case2 d b c s q ih => exact Nat.le_succ_of_le (ih h)
  | case3 d b c s hc ih => exact Nat.le_succ_of_le (ih h)
  | case4 d b c s hq hc ih => exact Nat.le_succ_of_le (ih h)
  | case5 d b c s hq ho hc ih => exact Nat.le_succ_of_le (ih h)
  | case6 d b c s hq ho hc hkey =>
    obtain rfl := Option.some.inj h
    exact Nat.le_refl _
  | case7 d b c s hq ho hc hkey ih => exact Nat.le_succ_of_le (ih h)

private theorem not_selectFrom_inside {m w : List Char} (hm : startsWith "SELECT" m = true)
    (hne : w ≠ []) (hw : ∀ c ∈ w, isNameChar c = true) (d : Nat) :
    selectFrom d none false (w ++ m) ≠ some m := by
  intro h
  have hlength : 0 < w.length := List.length_pos_of_ne_nil hne
  have hspan := List.takeWhile_append_dropWhile (p := isNameChar) (l := m)
  have hword : ∀ c ∈ m.takeWhile isNameChar, isNameChar c = true := fun c hc =>
    List.all_eq_true.mp List.all_takeWhile c hc
  have hrest := startsInName_dropWhile m
  have hfirst : m.takeWhile isNameChar ≠ [] := by
    intro hnil
    rw [← hspan, startsWith_word (by decide) hword hrest, hnil] at hm
    exact absurd hm (by decide)
  have hshort : (m.dropWhile isNameChar).length < m.length := by
    have hpos := List.length_pos_of_ne_nil hfirst
    have hsum := congrArg List.length hspan
    rw [List.length_append] at hsum
    omega
  have hwhole : w ++ m = (w ++ m.takeWhile isNameChar) ++ m.dropWhile isNameChar := by
    rw [List.append_assoc, hspan]
  rw [hwhole, selectFrom_wholeWord (by simp [hne]) (List.forall_mem_append.mpr ⟨hw, hword⟩) hrest,
    ← hwhole] at h
  split at h
  · have hsame := congrArg List.length (Option.some.inj h)
    rw [List.length_append] at hsame
    omega
  · have hle := length_selectFrom_le h
    omega

private theorem last_of_span {m : Char} (hm : isQuote m = true) (inside : List Char) {s : List Char}
    (hs : s.getLast?.any isNameChar = false) :
    (m :: (inside ++ m :: s)).getLast?.any isNameChar = false := by
  have hmark : (m :: (inside ++ [m])).getLast?.any isNameChar = false := by
    rw [← List.cons_append, List.getLast?_concat]
    exact isNameChar_of_isQuote hm
  simpa using getLast?_any_append hmark hs

/-- The text before a main query is a passage to where no parenthesis is open, and no name goes on
at its end. -/
theorem passage_of_selectFrom {m : List Char} (hm : startsWith "SELECT" m = true) {d : Nat}
    {p : List Char} (h : selectFrom d none false (p ++ m) = some m) :
    Passage d p 0 ∧ p.getLast?.any isNameChar = false := by
  induction p using scan_induction generalizing d with
  | nil =>
    refine ⟨?_, rfl⟩
    suffices hd : d = 0 by
      subst hd
      exact .nil
    by_contra hd
    obtain ⟨c, t, rfl, hc⟩ := exists_of_startsWith (k := 'S') (by decide) hm
    have hname : isNameChar c = true := by
      rw [← isNameChar_eq_of_sameLetter hc]
      decide
    obtain ⟨hquote, hopen, hclose, -⟩ := ne_of_isNameChar hname
    have hdepth : (d == 0) = false := beq_eq_false_iff_ne.mpr hd
    rw [List.nil_append, selectFrom, hquote, hopen, hclose, hdepth] at h
    exact absurd (length_selectFrom_le h) (by simp)
  | opening s ih =>
    obtain ⟨hpassage, hlast⟩ := ih (d := d + 1) h
    exact ⟨.opening hpassage, getLast?_any_append (x := ['(']) (by decide) hlast⟩
  | closing s ih =>
    obtain ⟨hpassage, hlast⟩ := ih (d := d - 1) h
    exact ⟨.closing hpassage, getLast?_any_append (x := [')']) (by decide) hlast⟩
  | span c inside s hc hinside ih =>
    rw [List.cons_append, List.append_assoc, List.cons_append, selectFrom_spanText hc hinside] at h
    obtain ⟨hpassage, hlast⟩ := ih h
    exact ⟨.span hc hinside hpassage, last_of_span hc inside hlast⟩
  | unclosed c s hc hs =>
    -- a span that goes on into the main query does not leave all of it
    have hspan : isQuote (OpenSpan.mark { mark := c }) = true := hc
    rw [List.cons_append, selectFrom, if_pos hc, selectFrom_span hspan] at h
    obtain ⟨u, hu, hmain⟩ := Option.bind_eq_some_iff.mp h
    obtain ⟨inside, hsplit, hinside⟩ := exists_of_rest? hc hu
    obtain ⟨x, rfl⟩ : m <:+ u := by
      refine List.suffix_of_suffix_length_le (List.suffix_append s m) ?_
        (length_selectFrom_le hmain)
      rw [hsplit]
      exact (List.suffix_cons c u).trans (List.suffix_append ..)
    obtain rfl : s = inside ++ c :: x := by
      refine List.append_cancel_right (?_ : s ++ m = inside ++ c :: x ++ m)
      rw [hsplit, List.append_assoc, List.cons_append]
    rw [rest?_spanText hc hinside] at hs
    exact absurd hs (by simp)
  | word w s hne hw hs ih =>
    cases s with
    | nil =>
      rw [List.append_nil] at h
      exact absurd h (not_selectFrom_inside hm hne hw d)
    | cons e s =>
      have hrest : startsInName (e :: s ++ m) = false := hs
      rw [List.append_assoc, selectFrom_wholeWord hne hw hrest] at h
      split at h
      · have hsame := congrArg List.length (Option.some.inj h)
        simp only [List.length_append, List.length_cons] at hsame
        omega
      · next hselect =>
        obtain ⟨hpassage, hlast⟩ := ih h
        refine ⟨.word hne hw (fun hd => ?_) hs hpassage, ?_⟩
        · rw [Bool.eq_false_iff]
          exact fun hword => hselect ⟨hd, hword⟩
        · rw [List.getLast?_append_of_ne_nil _ (List.cons_ne_nil e s)]
          exact hlast
  | idle c s hc ih =>
    rw [List.cons_append, selectFrom_idle hc] at h
    obtain ⟨hpassage, hlast⟩ := ih h
    refine ⟨.idle hc hpassage, getLast?_any_append (x := [c]) ?_ hlast⟩
    exact (ne_of_isIdle hc).2.2.2

/-! ### Texts that close their spans -/

private theorem Passage.word_append {d : Nat} (hne : w ≠ []) (hw : ∀ c ∈ w, isNameChar c = true)
    (hselect : d = 0 → sameText w "SELECT".toList = false) {a x : List Char}
    (hax : startsInName (a ++ x) = false) (hx : startsInName x = true) (ha : Passage d a 0)
    (hlast : a.getLast?.any isNameChar = false) :
    Passage d (w ++ a) 0 ∧ (w ++ a).getLast?.any isNameChar = false := by
  cases a with
  | nil =>
    rw [List.nil_append, hx] at hax
    exact Bool.noConfusion hax
  | cons c a =>
    refine ⟨.word hne hw hselect hax ha, ?_⟩
    rw [List.getLast?_append_of_ne_nil _ (List.cons_ne_nil c a)]
    exact hlast

private theorem startsInName_of_select {s : List Char} (h : startsWith "SELECT" s = true) :
    startsInName s = true := by
  obtain ⟨c, t, rfl, hc⟩ := exists_of_startsWith (k := 'S') (by decide) h
  exact (isNameChar_eq_of_sameLetter hc).symm.trans (by decide)

/-- A text that closes its spans is a passage, or it begins with a passage that a `SELECT` outside
of parentheses follows. -/
theorem Whole.passage_or_select {p : List Char} (h : Whole p) (d : Nat) :
    (∃ e, Passage d p e) ∨ ∃ a x, p = a ++ x ∧ Passage d a 0 ∧
      a.getLast?.any isNameChar = false ∧ Whole x ∧ startsWith "SELECT" x = true := by
  induction p using scan_induction generalizing d with
  | nil => exact .inl ⟨d, .nil⟩
  | opening s ih =>
    rcases ih (h.tail (by decide)) (d + 1) with ⟨e, he⟩ | ⟨a, x, rfl, ha, hlast, hx⟩
    · exact .inl ⟨e, .opening he⟩
    · exact .inr ⟨'(' :: a, x, rfl, .opening ha,
        getLast?_any_append (x := ['(']) (by decide) hlast, hx⟩
  | closing s ih =>
    rcases ih (h.tail (by decide)) (d - 1) with ⟨e, he⟩ | ⟨a, x, rfl, ha, hlast, hx⟩
    · exact .inl ⟨e, .closing he⟩
    · exact .inr ⟨')' :: a, x, rfl, .closing ha,
        getLast?_any_append (x := [')']) (by decide) hlast, hx⟩
  | span m inside s hm hinside ih =>
    have hs : Whole s := by
      obtain ⟨inside', t, hsplit, hinside', ht⟩ := h.exists_span hm
      have hrest := rest?_spanText hm hinside s
      rw [hsplit, rest?_spanText hm hinside'] at hrest
      exact Option.some.inj hrest ▸ ht
    rcases ih hs d with ⟨e, he⟩ | ⟨a, x, rfl, ha, hlast, hx⟩
    · exact .inl ⟨e, .span hm hinside he⟩
    · exact .inr ⟨m :: (inside ++ m :: a), x, by simp, .span hm hinside ha,
        last_of_span hm inside hlast, hx⟩
  | unclosed m s hm hs =>
    obtain ⟨inside, t, rfl, hinside, -⟩ := h.exists_span hm
    rw [rest?_spanText hm hinside] at hs
    exact absurd hs (by simp)
  | word w s hne hw hrest ih =>
    by_cases hselect : d = 0 ∧ sameText w "SELECT".toList = true
    · obtain ⟨rfl, hselect⟩ := hselect
      refine .inr ⟨[], w ++ s, rfl, .nil, rfl, h, ?_⟩
      rw [startsWith_word (by decide) hw hrest, hselect]
    · have hother : d = 0 → sameText w "SELECT".toList = false := by
        intro hd
        rw [Bool.eq_false_iff]
        exact fun hword => hselect ⟨hd, hword⟩
      have hs := h.of_append fun e he => (ne_of_isNameChar (hw e he)).1
      rcases ih hs d with ⟨e, he⟩ | ⟨a, x, rfl, ha, hlast, hx⟩
      · exact .inl ⟨e, .word hne hw hother hrest he⟩
      · obtain ⟨hpassage, hlast⟩ := Passage.word_append hne hw hother hrest
          (startsInName_of_select hx.2) ha hlast
        exact .inr ⟨w ++ a, x, (List.append_assoc ..).symm, hpassage, hlast, hx⟩
  | idle c s hc ih =>
    rcases ih (h.tail (ne_of_isIdle hc).1) d with ⟨e, he⟩ | ⟨a, x, rfl, ha, hlast, hx⟩
    · exact .inl ⟨e, .idle hc he⟩
    · exact .inr ⟨c :: a, x, rfl, .idle hc ha,
        getLast?_any_append (x := [c]) (ne_of_isIdle hc).2.2.2 hlast, hx⟩

end SqlReview.Query

import SqlReview.Proofs.Lexical.Layout
import SqlReview.Proofs.Query.Names

/-!
# Closing texts

A text that closes the parentheses and the quoted spans that it opens, and some parentheses that
were open before. A scan that stands in a parenthesis leaves such a text with these parentheses
closed and nothing else changed.
-/

namespace SqlReview.Query

open SqlReview.Text SqlReview.Lexical

/-- The content of a span. A backslash stands in an apostrophe span only, where it takes the next
character with it. -/
inductive SpanContent (mark : Char) : List Char → Prop
  | nil : SpanContent mark []
  | char {c : Char} {s : List Char} :
      c ≠ mark → c ≠ backslash → SpanContent mark s → SpanContent mark (c :: s)
  | escape {c : Char} {s : List Char} :
      mark = apostrophe → SpanContent mark s → SpanContent mark (backslash :: c :: s)

/-- Whether a character outside of spans is neither a parenthesis nor a quotation mark. -/
def isOrdinary (c : Char) : Bool :=
  !isQuote c && c != '(' && c != ')'

/-- A text that closes `depth` parentheses and all that it opens itself. -/
inductive Closes : (depth : Nat) → List Char → Prop
  | nil : Closes 0 []
  | opening {d : Nat} {s : List Char} : Closes (d + 1) s → Closes d ('(' :: s)
  | closing {d : Nat} {s : List Char} : Closes d s → Closes (d + 1) (')' :: s)
  | span {d : Nat} {m : Char} {inside s : List Char} :
      isQuote m = true → SpanContent m inside → Closes d s → Closes d (m :: (inside ++ m :: s))
  | char {d : Nat} {c : Char} {s : List Char} :
      isOrdinary c = true → Closes d s → Closes d (c :: s)

private theorem ne_of_isOrdinary {c : Char} (h : isOrdinary c = true) :
    isQuote c = false ∧ (c == '(') = false ∧ (c == ')') = false := by
  simpa [isOrdinary, and_assoc] using h

/-- Ordinary characters may stand before a closing text. -/
theorem Closes.append {w : List Char} (hw : ∀ c ∈ w, isOrdinary c = true) {d : Nat} {s : List Char}
    (h : Closes d s) : Closes d (w ++ s) := by
  induction w with
  | nil => exact h
  | cons c w ih =>
    exact .char (hw c (List.mem_cons_self ..)) (ih fun e he => hw e (List.mem_cons_of_mem c he))

/-! ### Spans -/

private theorem SpanContent.rest? {m : Char} (hm : isQuote m = true) {inside : List Char}
    (h : SpanContent m inside) (t : List Char) :
    OpenSpan.rest? { mark := m } (inside ++ m :: t) = some t := by
  induction h with
  | nil => rw [List.nil_append, OpenSpan.rest?, next_mark hm]
  | char hc hslash _ ih => rw [List.cons_append, rest?_cons (next_of_ne hc hslash), ih]
  | @escape c s _ _ ih => exact (rest?_escape hm false c (s ++ m :: t)).trans ih

/-- The content of an apostrophe span is blanked. -/
theorem SpanContent.fillers {inside : List Char} (h : SpanContent apostrophe inside)
    (t : List Char) :
    ∃ x, (∀ c ∈ x, c = filler) ∧
      blankFrom (· == apostrophe) (some apostrophe) (inside ++ apostrophe :: t) =
        x ++ apostrophe :: blankStrings t := by
  induction h with
  | nil =>
    refine ⟨[], by simp, ?_⟩
    have hslash : apostrophe ≠ '\\' := by decide
    rw [List.nil_append, blankFrom_some_cons _ fun h => absurd h hslash, if_pos rfl]
    rfl
  | @char c s hc hslash _ ih =>
    obtain ⟨x, hx, hs⟩ := ih
    refine ⟨content true c ++ x, ?_, ?_⟩
    · intro d hd
      exact (List.mem_append.mp hd).elim List.eq_of_mem_replicate (hx d)
    · rw [List.cons_append, blankFrom_some_cons _ fun h => absurd h hslash, if_neg hc, hs,
        List.append_assoc]
      rfl
  | @escape c s _ _ ih =>
    obtain ⟨x, hx, hs⟩ := ih
    refine ⟨content true backslash ++ content true c ++ x, ?_, ?_⟩
    · intro d hd
      rcases List.mem_append.mp hd with hd | hd
      · exact (List.mem_append.mp hd).elim List.eq_of_mem_replicate List.eq_of_mem_replicate
      · exact hx d hd
    · rw [List.append_assoc, ← hs]
      rfl

/-- The content of any other span stays, and its mark is not in it. -/
theorem SpanContent.stays {m : Char} (hq : isQuote m = true) (hm : m ≠ apostrophe)
    {inside : List Char} (h : SpanContent m inside) :
    (∀ c ∈ inside, (c != m) = true) ∧
      ∀ t, blankFrom (· == apostrophe) (some m) (inside ++ m :: t) =
        inside ++ m :: blankStrings t := by
  have hfilled : (m == apostrophe) = false := beq_eq_false_iff_ne.mpr hm
  induction h with
  | nil =>
    refine ⟨by simp, ?_⟩
    intro t
    have hslash : m ≠ '\\' := by
      rintro rfl
      exact absurd hq (by decide)
    rw [List.nil_append, blankFrom_some_cons _ fun h => absurd h hslash, if_pos rfl]
    rfl
  | @char c s hc hslash _ ih =>
    obtain ⟨hmark, hs⟩ := ih
    constructor
    · intro d hd
      rcases List.mem_cons.mp hd with rfl | hd
      · exact bne_iff_ne.mpr hc
      · exact hmark d hd
    · intro t
      rw [List.cons_append, blankFrom_some_cons _ fun h => absurd h hslash, if_neg hc, hs,
        hfilled]
      rfl
  | escape hapostrophe => exact absurd hapostrophe hm

/-! ### The scan for the main query -/

/-- A scan for the main query leaves the parentheses that a text closes. -/
theorem Closes.selectFrom {d : Nat} {s : List Char} (h : Closes d s) (n : Nat) (b : Bool)
    (t : List Char) :
    selectFrom (n + 1 + d) none b (s ++ ')' :: t) = Query.selectFrom n none false t := by
  induction h generalizing b with
  | nil => rfl
  | opening _ ih => exact ih _
  | closing _ ih => exact ih _
  | @span d m inside s hm hinside _ ih =>
    have hspan : isQuote (OpenSpan.mark { mark := m }) = true := hm
    rw [List.cons_append, Query.selectFrom, if_pos hm, selectFrom_span hspan, List.append_assoc,
      List.cons_append, hinside.rest? hm, Option.bind_some]
    exact ih false
  | @char d c s hc _ ih =>
    obtain ⟨hq, hopen, hclose⟩ := ne_of_isOrdinary hc
    have hdepth : (n + 1 + d == 0) = false := by
      rw [beq_eq_false_iff_ne]
      omega
    rw [List.cons_append, Query.selectFrom, hq, hopen, hclose, hdepth]
    exact ih _

/-! ### The reader of a prologue -/

/-- A name character is no symbol of its own. -/
theorem ne_of_isNameChar {c : Char} (h : isNameChar c = true) :
    isQuote c = false ∧ (c == '(') = false ∧ (c == ')') = false ∧ (c == ',') = false := by
  have hquote : isQuote c = false := by
    rw [Bool.eq_false_iff]
    intro hq
    rw [isNameChar_of_isQuote hq] at h
    exact Bool.false_ne_true h
  have hmark : ∀ k, isNameChar k = false → (c == k) = false := by
    intro k hk
    rw [beq_eq_false_iff_ne]
    rintro rfl
    rw [hk] at h
    exact Bool.false_ne_true h
  exact ⟨hquote, hmark '(' (by decide), hmark ')' (by decide), hmark ',' (by decide)⟩

/-- What is no quotation mark is neither a backtick nor a double quote. -/
theorem beq_of_isQuote_eq_false {c : Char} (h : isQuote c = false) :
    (c == backtick) = false ∧ (c == doubleQuote) = false := by
  simp only [isQuote, Bool.or_eq_false_iff] at h
  exact ⟨h.2, h.1.2⟩

/-- A name character begins a word. -/
theorem tokens_nameChar {c : Char} (h : isNameChar c = true) (s : List Char) :
    tokens (c :: s) =
      .word (c :: s.takeWhile isNameChar) :: tokens (s.dropWhile isNameChar) := by
  obtain ⟨hquote, hopen, hclose, hcomma⟩ := ne_of_isNameChar h
  obtain ⟨hbacktick, hdouble⟩ := beq_of_isQuote_eq_false hquote
  rw [tokens, hopen, hclose, hcomma, hbacktick, hdouble, h]
  rfl

/-- A quoted identifier is one symbol. -/
theorem tokens_quoted {m : Char} (h : m = backtick ∨ m = doubleQuote) {w : List Char}
    (hw : ∀ c ∈ w, (c != m) = true) (s : List Char) :
    tokens (m :: (w ++ m :: s)) = .quoted w :: tokens s := by
  have hmark : ((m == '(') = false ∧ (m == ')') = false ∧ (m == ',') = false) ∧
      (m == backtick || m == doubleQuote) = true := by
    rcases h with rfl | rfl <;> decide
  obtain ⟨⟨hopen, hclose, hcomma⟩, hmark⟩ := hmark
  have htake : (w ++ m :: s).takeWhile (· != m) = w := by
    rw [List.takeWhile_append_of_pos hw, List.takeWhile_cons_of_neg (by simp), List.append_nil]
  have hdrop : (w ++ m :: s).dropWhile (· != m) = m :: s := by
    rw [List.dropWhile_append_of_pos hw, List.dropWhile_cons_of_neg (by simp)]
  rw [tokens, hopen, hclose, hcomma, hmark, htake, hdrop]
  rfl

/-- Name characters before a text that begins with none are the name that the two begin with. -/
theorem span_of_startsInName {w s : List Char} (hw : ∀ c ∈ w, isNameChar c = true)
    (hs : startsInName s = false) :
    (w ++ s).takeWhile isNameChar = w ∧ (w ++ s).dropWhile isNameChar = s :=
  span_of_head? hw hs

namespace Binder

variable (b : Binder)

/-- The names that a reader has bound at the end of a text whose strings are not blanked. -/
def collect (s : List Char) : List (List Char) :=
  b.run (tokens (blankStrings s))

private theorem run_deep_word {b : Binder} (hb : b.depth ≠ 0) (w : List Char) (ts : List Token) :
    b.run (.word w :: ts) = b.run ts ∧ b.run (.quoted w :: ts) = b.run ts := by
  have hword : b.onWord w = b := if_pos (Nat.pos_of_ne_zero hb)
  rw [run, run, hword, if_neg fun h => hb h.1]
  exact ⟨rfl, rfl⟩

/-- In parentheses a word is passed over whether it is read from its first character or not. -/
theorem run_deep_cons {b : Binder} (hb : b.depth ≠ 0) {c : Char}
    (hc : (c == '(') = false ∧ (c == ')') = false)
    (hquote : (c == backtick) = false ∧ (c == doubleQuote) = false) (s : List Char) :
    b.run (tokens (c :: s)) = b.run (tokens s) := by
  by_cases hname : isNameChar c = true
  · rw [tokens_nameChar hname, (run_deep_word hb ..).1]
    cases s with
    | nil => rfl
    | cons d s =>
      by_cases hd : isNameChar d = true
      · rw [tokens_nameChar hd, (run_deep_word hb ..).1, List.dropWhile_cons_of_pos hd]
      · rw [List.dropWhile_cons_of_neg hd]
  · rw [tokens, hc.1, hc.2, hquote.1, hquote.2]
    by_cases hcomma : (c == ',') = true
    · have honComma : b.onComma = b := if_neg hb
      rw [hcomma]
      change b.onComma.run _ = _
      rw [honComma]
    · simp [hcomma, hname]

/-! ### Symbols of a text -/

private theorem collect_opening (s : List Char) : b.collect ('(' :: s) = b.onOpening.collect s := by
  rw [collect, blankStrings, blankFrom_cons _ s (by decide), tokens]
  rfl

/-- A closing parenthesis is taken before what follows it. -/
theorem collect_closing (s : List Char) : b.collect (')' :: s) = b.onClosing.collect s := by
  rw [collect, blankStrings, blankFrom_cons _ s (by decide), tokens]
  rfl

/-- A comma is taken before what follows it. -/
theorem collect_comma (s : List Char) : b.collect (',' :: s) = b.onComma.collect s := by
  rw [collect, blankStrings, blankFrom_cons _ s (by decide), tokens]
  rfl

/-- A reader passes over blanks. -/
theorem collect_blanks {w : List Char} (hw : isBlankText w = true) (s : List Char) :
    b.collect (w ++ s) = b.collect s := by
  have htokens : ∀ u, tokens (w ++ u) = tokens u := by
    intro u
    induction w with
    | nil => rfl
    | cons c w ih =>
      obtain ⟨hc, hw⟩ : isBlank c = true ∧ isBlankText w = true := by simpa [isBlankText] using hw
      rw [List.cons_append, tokens_blank hc, ih hw]
  rw [collect, blankStrings, blankFrom_blanks _ hw, htokens]
  rfl

private theorem collect_deep_cons {b : Binder} (hb : b.depth ≠ 0) {c : Char}
    (hc : isOrdinary c = true) (s : List Char) : b.collect (c :: s) = b.collect s := by
  obtain ⟨hq, hopen, hclose⟩ := ne_of_isOrdinary hc
  rw [collect, blankStrings, blankFrom_cons _ s hq,
    run_deep_cons hb ⟨hopen, hclose⟩ (beq_of_isQuote_eq_false hq)]
  rfl

/-- In parentheses a span is passed over. -/
theorem collect_deep_span {b : Binder} (hb : b.depth ≠ 0) {m : Char} (hm : isQuote m = true)
    {inside : List Char} (h : SpanContent m inside) (s : List Char) :
    b.collect (m :: (inside ++ m :: s)) = b.collect s := by
  rw [collect, blankStrings, blankFrom, if_pos hm]
  by_cases happ : m = apostrophe
  · subst happ
    obtain ⟨x, hx, hinside⟩ := h.fillers s
    have hfillers : ∀ u, b.run (tokens (x ++ u)) = b.run (tokens u) := by
      intro u
      clear hinside
      induction x with
      | nil => rfl
      | cons c x ih =>
        obtain rfl := hx c (List.mem_cons_self ..)
        rw [List.cons_append, run_deep_cons hb (by decide) (by decide),
          ih fun d hd => hx d (List.mem_cons_of_mem filler hd)]
    rw [hinside, run_deep_cons hb (by decide) (by decide), hfillers,
      run_deep_cons hb (by decide) (by decide)]
    rfl
  · obtain ⟨hinside, hstays⟩ := h.stays hm happ
    have hmark : m = backtick ∨ m = doubleQuote := by
      simp only [isQuote, Bool.or_eq_true, beq_iff_eq] at hm
      rcases hm with (h | h) | h
      · exact absurd h happ
      · exact .inr h
      · exact .inl h
    rw [hstays, tokens_quoted hmark hinside, (run_deep_word hb ..).2]
    rfl

/-- A whole word is one symbol. -/
theorem collect_word {w : List Char} (hne : w ≠ []) (hw : ∀ c ∈ w, isNameChar c = true)
    {s : List Char} (hs : startsInName s = false) :
    b.collect (w ++ s) =
      if b.depth = 0 ∧ sameText w "SELECT".toList then b.names else (b.onWord w).collect s := by
  have hblank : ∀ u, blankStrings (w ++ u) = w ++ blankStrings u := by
    intro u
    clear hne
    induction w with
    | nil => rfl
    | cons c w ih =>
      have hc := (ne_of_isNameChar (hw c (List.mem_cons_self ..))).1
      rw [List.cons_append, blankStrings, blankFrom_cons _ _ hc]
      exact congrArg (c :: ·) (ih fun d hd => hw d (List.mem_cons_of_mem c hd))
  have hrest : startsInName (blankStrings s) = false := by
    rw [startsInName, blankStrings, head?_blankFrom]
    exact hs
  obtain ⟨c, w, rfl⟩ := List.exists_cons_of_ne_nil hne
  have htail : ∀ d ∈ w, isNameChar d = true := fun d hd => hw d (List.mem_cons_of_mem c hd)
  obtain ⟨htake, hdrop⟩ := span_of_startsInName htail hrest
  rw [collect, hblank, List.cons_append, tokens_nameChar (hw c (List.mem_cons_self ..)), htake,
    hdrop]
  rfl

/-- A quoted identifier is one symbol, and never the end of a prologue. -/
theorem collect_quoted {m : Char} (hm : m = backtick ∨ m = doubleQuote) {w : List Char}
    (hw : SpanContent m w) (s : List Char) :
    b.collect (m :: (w ++ m :: s)) = (b.onWord w).collect s := by
  have hmark : isQuote m = true ∧ m ≠ apostrophe := by
    rcases hm with rfl | rfl <;> decide
  obtain ⟨hinside, hstays⟩ := hw.stays hmark.1 hmark.2
  rw [collect, blankStrings, blankFrom, if_pos hmark.1, hstays, tokens_quoted hm hinside]
  rfl

end Binder

/-- A reader leaves the parentheses that a text closes, and the parenthesis that it stands in. -/
theorem Closes.collect {d : Nat} {s : List Char} (h : Closes d s) (b : Binder) (t : List Char) :
    ({ b with depth := d + 1 } : Binder).collect (s ++ ')' :: t) =
      ({ b with depth := 1 } : Binder).onClosing.collect t := by
  induction h with
  | nil => exact Binder.collect_closing _ t
  | @opening d s _ ih =>
    rw [List.cons_append, Binder.collect_opening, ← ih]
    rfl
  | @closing d s _ ih =>
    rw [List.cons_append, Binder.collect_closing, ← ih]
    rfl
  | @span d m inside s hm hinside _ ih =>
    rw [List.cons_append, List.append_assoc, List.cons_append,
      Binder.collect_deep_span (Nat.succ_ne_zero d) hm hinside, ih]
  | @char d c s hc _ ih =>
    rw [List.cons_append, Binder.collect_deep_cons (Nat.succ_ne_zero d) hc, ih]

/-- Outside of parentheses a reader passes over enclosed text. -/
theorem Closes.collect_parens {s : List Char} (h : Closes 0 s) {b : Binder} (hb : b.depth = 0)
    (t : List Char) :
    b.collect ('(' :: (s ++ ')' :: t)) = b.onOpening.onClosing.collect t := by
  have hdepth : b.onOpening.depth = 1 := by
    rw [Binder.onOpening, if_neg (by omega)]
    cases b.expecting <;> rfl
  have hcollect := h.collect b.onOpening t
  rw [Binder.collect_opening]
  revert hdepth hcollect
  generalize b.onOpening = b'
  obtain ⟨depth, expecting, candidate, names⟩ := b'
  rintro rfl hcollect
  exact hcollect

end SqlReview.Query

import SqlReview.Proofs.Query.Passage

/-!
# Where the reader of names stands

The reader of names does not follow backslashes, so it can take a quoted identifier to end before
its last mark. Where it stands after a part of a text tells all that it makes of the rest: it has
met a main query, or it is between two symbols, or in a quoted identifier. The names that a prologue
binds depend on the prologue alone exactly if the reader is not in an identifier or in parentheses
after it.
-/

namespace SqlReview.Query

open SqlReview.Text SqlReview.Lexical

/-! ### Symbols -/

/-- Whether a character is no symbol of a prologue and belongs to none. -/
def isUnread (c : Char) : Bool :=
  c != '(' && c != ')' && c != ',' && c != backtick && c != doubleQuote && !isNameChar c

private theorem ne_of_isUnread {c : Char} (h : isUnread c = true) :
    ((c == '(') = false ∧ (c == ')') = false ∧ (c == ',') = false) ∧
      ((c == backtick) = false ∧ (c == doubleQuote) = false) ∧ isNameChar c = false := by
  simpa [isUnread, and_assoc] using h

/-- The two marks of quoted identifiers are no other symbols. -/
theorem ne_of_identifierMark {m : Char} (h : m = backtick ∨ m = doubleQuote) :
    ((m == '(') = false ∧ (m == ')') = false ∧ (m == ',') = false) ∧
      (m == backtick || m == doubleQuote) = true := by
  rcases h with rfl | rfl <;> decide

/-- The characters before a mark are those of its identifier. -/
theorem span_mark {m : Char} {w : List Char} (hw : ∀ c ∈ w, (c != m) = true) (s : List Char) :
    (w ++ m :: s).takeWhile (· != m) = w ∧ (w ++ m :: s).dropWhile (· != m) = m :: s := by
  rw [List.takeWhile_append_of_pos hw, List.dropWhile_append_of_pos hw,
    List.takeWhile_cons_of_neg (by simp), List.dropWhile_cons_of_neg (by simp), List.append_nil]
  exact ⟨rfl, rfl⟩

private theorem exists_of_mem_mark {m : Char} {s : List Char} (h : m ∈ s) :
    ∃ w x, s = w ++ m :: x ∧ ∀ c ∈ w, (c != m) = true := by
  obtain ⟨w, x, rfl, hw⟩ := List.eq_append_cons_of_mem h
  exact ⟨w, x, rfl, fun c hc => bne_iff_ne.mpr fun heq => hw (heq ▸ hc)⟩

/-- A text is read symbol by symbol. -/
@[elab_as_elim]
theorem symbols_induction {motive : List Char → Prop} (nil : motive [])
    (opening : ∀ s, motive s → motive ('(' :: s))
    (closing : ∀ s, motive s → motive (')' :: s))
    (comma : ∀ s, motive s → motive (',' :: s))
    (quoted : ∀ m w s, m = backtick ∨ m = doubleQuote → (∀ c ∈ w, (c != m) = true) → motive s →
      motive (m :: (w ++ m :: s)))
    (unclosed : ∀ m s, m = backtick ∨ m = doubleQuote → m ∉ s → motive (m :: s))
    (word : ∀ w s, w ≠ [] → (∀ c ∈ w, isNameChar c = true) → startsInName s = false → motive s →
      motive (w ++ s))
    (unread : ∀ c s, isUnread c = true → motive s → motive (c :: s)) (s : List Char) :
    motive s := by
  induction hn : s.length using Nat.strongRecOn generalizing s with
  | ind n ih =>
    cases s with
    | nil => exact nil
    | cons c s =>
      rw [List.length_cons] at hn
      by_cases hopen : c = '('
      · exact hopen ▸ opening s (ih s.length (by omega) s rfl)
      by_cases hclose : c = ')'
      · exact hclose ▸ closing s (ih s.length (by omega) s rfl)
      by_cases hcomma : c = ','
      · exact hcomma ▸ comma s (ih s.length (by omega) s rfl)
      by_cases hmark : c = backtick ∨ c = doubleQuote
      · by_cases hmem : c ∈ s
        · obtain ⟨w, x, rfl, hw⟩ := List.eq_append_cons_of_mem hmem
          rw [List.length_append, List.length_cons] at hn
          refine quoted c w x hmark ?_ (ih x.length (by omega) x rfl)
          intro d hd
          exact bne_iff_ne.mpr fun heq => hw (heq ▸ hd)
        · exact unclosed c s hmark hmem
      by_cases hname : isNameChar c = true
      · have hshort := (s.dropWhile_sublist isNameChar).length_le
        have htail : c :: s = (c :: s.takeWhile isNameChar) ++ s.dropWhile isNameChar := by
          rw [List.cons_append, List.takeWhile_append_dropWhile]
        rw [htail]
        refine word _ _ (List.cons_ne_nil _ _) ?_ (startsInName_dropWhile s)
          (ih _ (by omega) _ rfl)
        intro d hd
        rcases List.mem_cons.mp hd with rfl | hd
        · exact hname
        · exact List.all_eq_true.mp List.all_takeWhile d hd
      · obtain ⟨hbacktick, hdouble⟩ := not_or.mp hmark
        refine unread c s ?_ (ih s.length (by omega) s rfl)
        simp [isUnread, hopen, hclose, hcomma, hbacktick, hdouble, hname]

/-! ### Where a reader stands -/

/-- Where a reader of names stands after a text. -/
inductive Standing where
  /-- It has met the main query. -/
  | done (names : List (List Char))
  | between (reader : Binder)
  /-- It is in a quoted identifier, of which it has read a part. -/
  | inside (reader : Binder) (mark : Char) (part : List Char)

namespace Binder

/-- Where a reader stands after a text, when it has stood between two symbols before. -/
def standing (b : Binder) : List Char → Standing
  | [] => .between b
  | c :: s =>
    if c == '(' then b.onOpening.standing s
    else if c == ')' then b.onClosing.standing s
    else if c == ',' then b.onComma.standing s
    else if c == backtick || c == doubleQuote then
      if c ∈ s then (b.onWord (s.takeWhile (· != c))).standing ((s.dropWhile (· != c)).drop 1)
      else .inside b c s
    else if isNameChar c then
      if b.depth = 0 ∧ sameText (c :: s.takeWhile isNameChar) "SELECT".toList then .done b.names
      else (b.onWord (c :: s.takeWhile isNameChar)).standing (s.dropWhile isNameChar)
    else b.standing s
termination_by s => s.length
decreasing_by
  all_goals simp_wf
  · have := (s.dropWhile_sublist (· != c)).length_le; omega
  · have := (s.dropWhile_sublist isNameChar).length_le; omega

end Binder

namespace Standing

/-- The names bound so far. -/
def names : Standing → List (List Char)
  | done names => names
  | between b => b.names
  | inside b _ _ => b.names

/-- Where a reader stands after more of a text. -/
def resume (z : List Char) : Standing → Standing
  | done names => done names
  | between b => b.standing z
  | inside b m w =>
    if m ∈ z then (b.onWord (w ++ z.takeWhile (· != m))).standing ((z.dropWhile (· != m)).drop 1)
    else inside b m (w ++ z)

/-- Whether a reader is done, or stands outside of identifiers and parentheses. -/
def AtRest : Standing → Prop
  | done _ => True
  | between b => b.depth = 0
  | inside _ _ _ => False

end Standing

namespace Binder

variable (b : Binder)

/-! ### What a symbol leaves as it is -/

/-- A word does not change the depth of a reader. -/
@[simp] theorem depth_onWord (w : List Char) : (b.onWord w).depth = b.depth := by
  unfold onWord
  repeat' split
  all_goals rfl

/-- A word does not change the names of a reader. -/
@[simp] theorem names_onWord (w : List Char) : (b.onWord w).names = b.names := by
  unfold onWord
  repeat' split
  all_goals rfl

/-- A comma does not change the depth of a reader. -/
@[simp] theorem depth_onComma : b.onComma.depth = b.depth := by
  unfold onComma
  split <;> rfl

/-- An opening parenthesis takes a reader one deeper. -/
@[simp] theorem depth_onOpening : b.onOpening.depth = b.depth + 1 := by
  unfold onOpening
  split
  · rfl
  · next h =>
    have hdepth : b.depth = 0 := by omega
    rw [hdepth]
    split <;> rfl

/-- A closing parenthesis takes a reader one up. -/
@[simp] theorem depth_onClosing : b.onClosing.depth = b.depth - 1 := by
  unfold onClosing
  split
  · next h => exact h.trans (by rw [h])
  · next h => rw [h]
  · next h => rw [h]; rfl

/-- A closing parenthesis does not change the names of a reader. -/
@[simp] theorem names_onClosing : b.onClosing.names = b.names := by
  unfold onClosing
  split <;> rfl

/-! ### One symbol -/

/-- An opening parenthesis is taken before what follows it. -/
theorem standing_opening (s : List Char) : b.standing ('(' :: s) = b.onOpening.standing s := by
  rw [standing]
  rfl

/-- A closing parenthesis is taken before what follows it. -/
theorem standing_closing (s : List Char) : b.standing (')' :: s) = b.onClosing.standing s := by
  rw [standing]
  rfl

/-- A comma is taken before what follows it. -/
theorem standing_comma (s : List Char) : b.standing (',' :: s) = b.onComma.standing s := by
  rw [standing]
  rfl

/-- A character that belongs to no symbol is passed over. -/
theorem standing_unread {c : Char} (hc : isUnread c = true) (s : List Char) :
    b.standing (c :: s) = b.standing s := by
  obtain ⟨⟨hopen, hclose, hcomma⟩, ⟨hbacktick, hdouble⟩, hname⟩ := ne_of_isUnread hc
  rw [standing, hopen, hclose, hcomma, hbacktick, hdouble, hname]
  rfl

/-- A quoted identifier is one symbol. -/
theorem standing_quoted {m : Char} (hm : m = backtick ∨ m = doubleQuote) {w : List Char}
    (hw : ∀ c ∈ w, (c != m) = true) (s : List Char) :
    b.standing (m :: (w ++ m :: s)) = (b.onWord w).standing s := by
  obtain ⟨⟨hopen, hclose, hcomma⟩, hmark⟩ := ne_of_identifierMark hm
  obtain ⟨htake, hdrop⟩ := span_mark hw s
  have hmem : m ∈ w ++ m :: s := List.mem_append_right w (List.mem_cons_self ..)
  rw [standing, hopen, hclose, hcomma, hmark, htake, hdrop]
  simp [hmem]

/-- A quoted identifier that is never closed goes on to the end. -/
theorem standing_unclosed {m : Char} (hm : m = backtick ∨ m = doubleQuote) {s : List Char}
    (hs : m ∉ s) : b.standing (m :: s) = .inside b m s := by
  obtain ⟨⟨hopen, hclose, hcomma⟩, hmark⟩ := ne_of_identifierMark hm
  rw [standing, hopen, hclose, hcomma, hmark]
  simp [hs]

/-- A word is one symbol. -/
theorem standing_word {w : List Char} (hne : w ≠ []) (hw : ∀ c ∈ w, isNameChar c = true)
    {s : List Char} (hs : startsInName s = false) :
    b.standing (w ++ s) =
      if b.depth = 0 ∧ sameText w "SELECT".toList then .done b.names
      else (b.onWord w).standing s := by
  obtain ⟨c, w, rfl⟩ := List.exists_cons_of_ne_nil hne
  have hc := hw c (List.mem_cons_self ..)
  obtain ⟨hquote, hopen, hclose, hcomma⟩ := ne_of_isNameChar hc
  obtain ⟨hbacktick, hdouble⟩ := beq_of_isQuote_eq_false hquote
  obtain ⟨htake, hdrop⟩ := span_of_startsInName
    (fun e he => hw e (List.mem_cons_of_mem c he)) hs
  rw [List.cons_append, standing, hopen, hclose, hcomma, hbacktick, hdouble, hc, htake, hdrop]
  rfl

/-! ### Texts in two parts -/

/-- The names that a reader binds are told by where it stands at the end. -/
theorem run_tokens (s : List Char) : b.run (tokens s) = (b.standing s).names := by
  induction s using symbols_induction generalizing b with
  | nil => rw [tokens, standing]; rfl
  | opening s ih =>
    rw [standing_opening, ← ih, tokens]
    rfl
  | closing s ih =>
    rw [standing_closing, ← ih, tokens]
    rfl
  | comma s ih =>
    rw [standing_comma, ← ih, tokens]
    rfl
  | quoted m w s hm hw ih =>
    rw [standing_quoted b hm hw, ← ih, tokens_quoted hm hw]
    rfl
  | unclosed m s hm hs =>
    obtain ⟨⟨hopen, hclose, hcomma⟩, hmark⟩ := ne_of_identifierMark hm
    have hdrop : s.dropWhile (· != m) = [] := by
      rw [List.dropWhile_eq_nil_iff]
      exact fun c hc => bne_iff_ne.mpr fun heq => hs (heq ▸ hc)
    rw [standing_unclosed b hm hs, tokens, hopen, hclose, hcomma, hmark, hdrop]
    simp [tokens, run, Standing.names]
  | word w s hne hw hs ih =>
    obtain ⟨c, w, rfl⟩ := List.exists_cons_of_ne_nil hne
    obtain ⟨htake, hdrop⟩ := span_of_startsInName
      (fun e he => hw e (List.mem_cons_of_mem c he)) hs
    rw [standing_word b hne hw hs, List.cons_append, tokens_nameChar (hw c (List.mem_cons_self ..)),
      htake, hdrop, run]
    split
    · rfl
    · exact ih _
  | unread c s hc ih =>
    obtain ⟨⟨hopen, hclose, hcomma⟩, ⟨hbacktick, hdouble⟩, hname⟩ := ne_of_isUnread hc
    rw [standing_unread b hc, ← ih, tokens, hopen, hclose, hcomma, hbacktick, hdouble, hname]
    rfl

/-- A reader can stop in a text where no name goes on, and resume there. -/
theorem standing_append (u : List Char) {z : List Char}
    (h : startsInName z = false ∨ u.getLast?.any isNameChar = false) :
    b.standing (u ++ z) = (b.standing u).resume z := by
  have htail : ∀ {x s : List Char},
      startsInName z = false ∨ (x ++ s).getLast?.any isNameChar = false →
      startsInName z = false ∨ s.getLast?.any isNameChar = false :=
    fun h => h.imp_right getLast?_any_of_append
  induction u using symbols_induction generalizing b with
  | nil => rw [standing]; rfl
  | opening s ih =>
    rw [List.cons_append, standing_opening, standing_opening, ih _ (htail (x := ['(']) h)]
  | closing s ih =>
    rw [List.cons_append, standing_closing, standing_closing, ih _ (htail (x := [')']) h)]
  | comma s ih =>
    rw [List.cons_append, standing_comma, standing_comma, ih _ (htail (x := [',']) h)]
  | quoted m w s hm hw ih =>
    rw [List.cons_append, List.append_assoc, List.cons_append, standing_quoted b hm hw,
      standing_quoted b hm hw, ih]
    exact htail (x := m :: (w ++ [m])) (by simpa using h)
  | unclosed m s hm hs =>
    rw [standing_unclosed b hm hs, Standing.resume]
    by_cases hz : m ∈ z
    · obtain ⟨w, x, rfl, hw⟩ := exists_of_mem_mark hz
      obtain ⟨htake, hdrop⟩ := span_mark hw x
      have hsw : ∀ c ∈ s ++ w, (c != m) = true := by
        intro c hc
        rcases List.mem_append.mp hc with hc | hc
        · exact bne_iff_ne.mpr fun heq => hs (heq ▸ hc)
        · exact hw c hc
      rw [if_pos hz, htake, hdrop, List.cons_append, ← List.append_assoc, standing_quoted b hm hsw]
      rfl
    · rw [if_neg hz, List.cons_append, standing_unclosed b hm]
      exact List.not_mem_append hs hz
  | word w s hne hw hs ih =>
    have hrest := startsInName_append_of_word hne hw hs h
    rw [List.append_assoc, standing_word b hne hw hrest, standing_word b hne hw hs]
    split
    · rfl
    · exact ih _ (htail h)
  | unread c s hc ih =>
    rw [List.cons_append, standing_unread b hc, standing_unread b hc, ih _ (htail (x := [c]) h)]

end Binder

end SqlReview.Query

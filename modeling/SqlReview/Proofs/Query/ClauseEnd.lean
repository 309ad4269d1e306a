import SqlReview.Proofs.Query.BoundTable
import SqlReview.Proofs.Query.SelectItems
import SqlReview.Proofs.Text.AsciiBytes

/-!
# Where a clause ends, and where a text is split

The end of a clause told without a scan: up to it no parenthesis closes too many and nothing that
ends a clause stands outside of parentheses, and there the text ends, or such a thing stands. There
is one such place only, since a clause that went on behind it would hold what ends it. A text is
split at the separators outside of parentheses, where a parenthesis too many counts for nothing.
-/

namespace SqlReview.Query

open SqlReview.Text SqlReview.Lexical

/-! ### Words that end a clause -/

/-- Whether a keyword is a word: letters, digits and underscores of ASCII. Letter case does not
matter. -/
def IsStopWord (keyword : String) : Prop :=
  keyword.toList ≠ [] ∧ ∀ c ∈ keyword.toList, (c.isAlphanum || c == '_') = true

/-- Whether a keyword is a word is told from its characters. -/
instance : DecidablePred IsStopWord := fun _ => inferInstanceAs (Decidable (_ ∧ _))

/-- Whether one of some keywords stands at an offset of a text as a whole word, in any case. -/
def stopAt (stops : List String) (t : List Char) (n : Nat) : Bool :=
  stops.any (wordAt isNameChar · t n)

private theorem IsStopWord.isNameChar {keyword : String} (h : IsStopWord keyword) :
    ∀ c ∈ keyword.toList, isNameChar c = true := by
  intro c hc
  have hclass := h.2 c hc
  refine isNameChar_of_isSimpleChar ?_ ?_
  · rw [isSimpleChar, hclass]
    rfl
  · rintro rfl
    exact absurd hclass (by decide)

private theorem dropLetters?_eq (ks s : List Char) :
    dropLetters? ks s =
      if sameText (s.take ks.length) ks then some (s.drop ks.length) else none := by
  induction ks generalizing s with
  | nil => rfl
  | cons k ks ih =>
    cases s with
    | nil => rfl
    | cons c s =>
      have hsame : sameText ((c :: s).take (k :: ks).length) (k :: ks) =
          (sameLetter k c && sameText (s.take ks.length) ks) := by
        rw [List.length_cons, List.take_succ_cons, sameText, lowerAscii, lowerAscii, List.map_cons,
          List.map_cons, sameLetter, List.cons_beq_cons, Bool.beq_comm (a := c.toLower)]
        rfl
      rw [dropLetters?, ih, hsame]
      cases sameLetter k c <;> rfl

/-- Behind a first part a keyword is a whole word where the second part begins with it and no name
goes on. -/
theorem wordAt_eq_startsWith (keyword : String) (u s : List Char) :
    wordAt isNameChar keyword (u ++ s) u.length =
      (startsWith keyword s && !u.getLast?.any isNameChar) := by
  rw [startsWith, afterKeyword?, dropLetters?_eq, String.length_toList, wordAt, List.drop_left,
    List.take_left]
  cases sameText (s.take keyword.length) keyword.toList with
  | false => rfl
  | true =>
    rw [if_pos rfl, Option.filter_some, startsInName]
    cases (s.drop keyword.length).head?.any isNameChar <;>
      cases u.getLast?.any isNameChar <;> rfl

variable {stops : List String} {u : List Char}

private theorem isNameChar_of_startsWithAny (hstops : ∀ k ∈ stops, IsStopWord k) {c : Char}
    {s : List Char} (h : startsWithAny stops (c :: s) = true) : isNameChar c = true := by
  obtain ⟨k, hk, hstarts⟩ := List.any_eq_true.mp h
  obtain ⟨hne, -⟩ := hstops k hk
  obtain ⟨d, ds, hletters⟩ := List.exists_cons_of_ne_nil hne
  rw [startsWith, afterKeyword?, hletters, dropLetters?] at hstarts
  split at hstarts
  · next hletter =>
    rw [← isNameChar_eq_of_sameLetter hletter]
    exact (hstops k hk).isNameChar d (hletters ▸ List.mem_cons_self ..)
  · exact absurd hstarts (by simp)

/-- A clause ends before a character outside of parentheses that is one of two marks or begins a
word that ends it. -/
theorem endsBefore_eq (hstops : ∀ k ∈ stops, IsStopWord k) (depth : Nat) (u : List Char) (c : Char)
    (s : List Char) :
    endsBefore stops depth (u.getLast?.any isNameChar) c s =
      (depth == 0 && (c == ')' || c == ';' || stopAt stops (u ++ c :: s) u.length)) := by
  have hstop : stopAt stops (u ++ c :: s) u.length =
      (startsWithAny stops (c :: s) && !u.getLast?.any isNameChar) := by
    rw [stopAt, startsWithAny]
    simp only [wordAt_eq_startsWith]
    induction stops with
    | nil => rfl
    | cons k stops ih =>
      rw [List.any_cons, List.any_cons, ih fun k' hk' => hstops k' (List.mem_cons_of_mem k hk'),
        Bool.and_or_distrib_right]
  rw [endsBefore, hstop]
  congr 2
  cases hany : startsWithAny stops (c :: s) with
  | false => simp
  | true => simp [isNameChar_of_startsWithAny hstops hany]

/-! ### The end of a clause -/

/-- Whether nothing in a text `p` ends a clause when `r` follows it. -/
structure GoesOn (stops : List String) (p r : List Char) : Prop where
  /-- No parenthesis closes that was not opened. -/
  opened : ∀ q, q <+: p → q.count ')' ≤ q.count '('
  /-- Outside of parentheses there is no semicolon, and no word that ends a clause begins there. -/
  inside : ∀ q c x, p = q ++ c :: x → openCount q = 0 →
    c ≠ ';' ∧ stopAt stops (p ++ r) q.length = false

/-- Whether a text is the clause that `p ++ r` begins with, up to `r`: the clause does not end
before, and there the text ends, or a closing parenthesis, a semicolon or a word ends the clause
outside of parentheses. -/
structure IsClause (stops : List String) (p r : List Char) : Prop extends GoesOn stops p r where
  stop : r = [] ∨ openCount p = 0 ∧
    (r.head? = some ')' ∨ r.head? = some ';' ∨ stopAt stops (p ++ r) p.length = true)

/-- Whether the clause that a text begins with ends at a byte offset. -/
def IsClauseEnd (stops : List String) (t : List Char) (e : Nat) : Prop :=
  ∃ p r, t = p ++ r ∧ byteLength p = e ∧ IsClause stops p r

private theorem IsClause.not_longer {p r x r' : List Char} {c : Char} (h : IsClause stops p r)
    (h' : IsClause stops (p ++ c :: x) r') (hsplit : p ++ r = p ++ c :: x ++ r') : False := by
  obtain rfl : r = c :: (x ++ r') := by simpa using hsplit
  rcases h.stop with hnil | ⟨hopen, hstop⟩
  · exact List.cons_ne_nil _ _ hnil
  · obtain ⟨hsemicolon, hword⟩ := h'.inside p c x rfl hopen
    rw [← hsplit] at hword
    rcases hstop with hclose | hmark | hstop
    · obtain rfl : c = ')' := Option.some.inj hclose
      have hcount := h'.opened (p ++ [')']) ⟨x, by simp⟩
      rw [List.count_append, List.count_append, List.count_singleton_self,
        show [')'].count '(' = 0 from rfl] at hcount
      rw [openCount] at hopen
      omega
    · exact hsemicolon (Option.some.inj hmark)
    · rw [hword] at hstop
      exact Bool.false_ne_true hstop

/-- A text begins with one clause only. -/
theorem IsClause.unique {p r p' r' : List Char} (h : IsClause stops p r)
    (h' : IsClause stops p' r') (hsplit : p ++ r = p' ++ r') : p = p' := by
  rcases List.append_eq_append_iff.mp hsplit with ⟨x, rfl, rfl⟩ | ⟨x, rfl, rfl⟩
  · cases x with
    | nil => exact (List.append_nil p).symm
    | cons c x => exact (h.not_longer h' hsplit).elim
  · cases x with
    | nil => exact List.append_nil p'
    | cons c x => exact (h'.not_longer h hsplit.symm).elim

/-- A clause goes on through a character before which it does not end. -/
theorem GoesOn.step (hstops : ∀ k ∈ stops, IsStopWord k) {c : Char} {s : List Char}
    (h : GoesOn stops u (c :: s))
    (hends : endsBefore stops (openCount u) (u.getLast?.any isNameChar) c s = false) :
    GoesOn stops (u ++ [c]) s := by
  rw [endsBefore_eq hstops] at hends
  have hoff : openCount u = 0 → (c ≠ ')' ∧ c ≠ ';') ∧
      stopAt stops (u ++ c :: s) u.length = false := by
    intro hopen
    rw [hopen] at hends
    simpa [and_assoc] using hends
  have hle := h.opened u (List.prefix_refl u)
  constructor
  · intro q hq
    rcases List.prefix_concat_iff.mp hq with rfl | hq
    · rw [List.count_append, List.count_append]
      by_cases hclose : c = ')'
      · subst hclose
        have hopen : openCount u ≠ 0 := fun h0 => (hoff h0).1.1 rfl
        rw [List.count_singleton_self, show [')'].count '(' = 0 from rfl]
        rw [openCount] at hopen
        omega
      · rw [List.count_singleton, if_neg (by simpa using hclose)]
        omega
    · exact h.opened q hq
  · intro q d x hsplit hopen
    rw [List.append_assoc, List.singleton_append]
    rcases List.eq_nil_or_concat x with rfl | ⟨x, e, rfl⟩
    · obtain ⟨rfl, hd⟩ := List.append_inj' hsplit rfl
      obtain rfl : c = d := List.head_eq_of_cons_eq hd
      exact ⟨(hoff hopen).1.2, (hoff hopen).2⟩
    · rw [List.concat_eq_append, ← List.cons_append, ← List.append_assoc] at hsplit
      exact h.inside q d x (List.append_inj' hsplit rfl).1 hopen

/-- The scan goes up to the end of the clause. -/
theorem GoesOn.isClause (hstops : ∀ k ∈ stops, IsStopWord k) {s : List Char}
    (h : GoesOn stops u s) :
    let parts := topLevelFrom stops (openCount u) (u.getLast?.any isNameChar) s
    IsClause stops (u ++ parts.1) parts.2 := by
  induction s generalizing u with
  | nil =>
    rw [topLevelFrom]
    simp only [List.append_nil]
    exact ⟨h, .inl rfl⟩
  | cons c s ih =>
    cases hends : endsBefore stops (openCount u) (u.getLast?.any isNameChar) c s with
    | true =>
      rw [topLevelFrom, if_pos hends]
      simp only [List.append_nil]
      refine ⟨h, .inr ?_⟩
      rw [endsBefore_eq hstops] at hends
      simpa [or_assoc] using hends
    | false =>
      have hnext := ih (h.step hstops hends)
      rw [openCount_concat (h.opened u (List.prefix_refl u)), List.getLast?_concat] at hnext
      rw [topLevelFrom, hends, if_neg Bool.false_ne_true]
      simpa using hnext

/-- The text up to the end of its first clause is a clause. -/
theorem isClause_topLevel (hstops : ∀ k ∈ stops, IsStopWord k) (t : List Char) :
    ∃ r, t = topLevel stops t ++ r ∧ IsClause stops (topLevel stops t) r := by
  have hstart : GoesOn stops [] t :=
    ⟨fun q hq => by simp [List.prefix_nil.mp hq], fun q c x hsplit => by simp at hsplit⟩
  exact ⟨_, (topLevelFrom_append stops 0 false t).symm, hstart.isClause hstops⟩

/-! ### Parts between separators -/

/-- The number of open parentheses behind a text, `depth` of them being open before it. -/
def depthBehind (depth : Nat) (s : List Char) : Nat :=
  s.foldl depthAfter depth

/-- Whether a separator stands at an offset of a text outside of parentheses. -/
def separatesAt (sep : Char) (depth : Nat) (s : List Char) (n : Nat) : Bool :=
  s[n]? == some sep && depthBehind depth (s.take n) == 0

variable {sep : Char}

/-- The parts, put together again, are the text. -/
theorem intercalate_splitTopLevelFrom (hsep : sep ≠ '(' ∧ sep ≠ ')') (depth : Nat)
    (s : List Char) : [sep].intercalate (splitTopLevelFrom sep depth s) = s := by
  induction s generalizing depth with
  | nil => rfl
  | cons c s ih =>
    by_cases h : c = sep ∧ depth = 0
    · obtain ⟨rfl, rfl⟩ := h
      obtain ⟨part, parts, hparts⟩ :=
        List.exists_cons_of_ne_nil (Checked.splitTopLevelFrom_ne_nil c 0 s)
      have hrest := ih 0
      rw [splitTopLevelFrom_separator hsep, hparts, List.intercalate_cons_cons, ← hparts, hrest]
      rfl
    · obtain ⟨part, parts, hparts⟩ :=
        List.exists_cons_of_ne_nil (Checked.splitTopLevelFrom_ne_nil sep (depthAfter depth c) s)
      have hrest := ih (depthAfter depth c)
      rw [Checked.splitTopLevelFrom_cons h, hparts, prepend]
      rw [hparts] at hrest
      cases parts with
      | nil =>
        rw [List.intercalate_singleton] at hrest ⊢
        rw [hrest]
        rfl
      | cons q parts =>
        rw [List.intercalate_cons_cons] at hrest ⊢
        rw [← hrest]
        simp

/-- There is one part more than there are separators outside of parentheses. -/
theorem length_splitTopLevelFrom (hsep : sep ≠ '(' ∧ sep ≠ ')') (depth : Nat) (s : List Char) :
    (splitTopLevelFrom sep depth s).length =
      (List.range s.length).countP (separatesAt sep depth s) + 1 := by
  induction s generalizing depth with
  | nil => rfl
  | cons c s ih =>
    have hlater : ∀ n, separatesAt sep depth (c :: s) (n + 1) =
        separatesAt sep (depthAfter depth c) s n := fun n => rfl
    have hfirst : separatesAt sep depth (c :: s) 0 = (c == sep && depth == 0) := by
      simp [separatesAt, depthBehind]
    have hrange : (List.range (c :: s).length).countP (separatesAt sep depth (c :: s)) =
        (List.range s.length).countP (separatesAt sep (depthAfter depth c) s) +
          if (c == sep && depth == 0) = true then 1 else 0 := by
      rw [List.length_cons, List.range_succ_eq_map, List.countP_cons, List.countP_map, hfirst]
      rfl
    rw [hrange]
    by_cases h : c = sep ∧ depth = 0
    · obtain ⟨rfl, rfl⟩ := h
      have hdepth : depthAfter 0 c = 0 := by simp [depthAfter, hsep.1]
      rw [splitTopLevelFrom_separator hsep, List.length_cons, ih, hdepth]
      simp
    · obtain ⟨part, parts, hparts⟩ :=
        List.exists_cons_of_ne_nil (Checked.splitTopLevelFrom_ne_nil sep (depthAfter depth c) s)
      have hrest := ih (depthAfter depth c)
      rw [hparts] at hrest
      rw [Checked.splitTopLevelFrom_cons h, hparts, if_neg (by simpa using h)]
      exact hrest

/-! ### Both scans -/

/-- The text up to the end of a clause is the first bytes of the text up to the only offset at which
a clause ends. The parts of a text are the text with the separators between them taken out, and
there is one part more than the text has separators outside of parentheses. -/
theorem topLevel_and_splitTopLevel (t : List Char) :
    (∀ stops : List String, (∀ k ∈ stops, IsStopWord k) →
      takeBytes? (byteLength (topLevel stops t)) t = some (topLevel stops t) ∧
      ∀ e, IsClauseEnd stops t e ↔ e = byteLength (topLevel stops t)) ∧
    ∀ sep : Char, sep ≠ '(' → sep ≠ ')' →
      [sep].intercalate (splitTopLevel sep t) = t ∧
      (splitTopLevel sep t).length = (List.range t.length).countP (separatesAt sep 0 t) + 1 := by
  refine ⟨fun stops hstops => ?_, fun sep hopen hclose =>
    ⟨intercalate_splitTopLevelFrom ⟨hopen, hclose⟩ 0 t,
      length_splitTopLevelFrom ⟨hopen, hclose⟩ 0 t⟩⟩
  obtain ⟨r, hsplit, hclause⟩ := isClause_topLevel hstops t
  constructor
  · have htake := takeBytes?_byteLength (topLevel stops t) r
    rwa [← hsplit] at htake
  · intro e
    constructor
    · rintro ⟨p, r', hp, rfl, hclause'⟩
      rw [hclause'.unique hclause (hp.symm.trans hsplit)]
    · rintro rfl
      exact ⟨_, r, hsplit, rfl, hclause⟩

/-- A semicolon and a keyword in parentheses end nothing, and neither does a word that ends with the
keyword. A parenthesis too many hides no separator behind it. -/
theorem topLevel_and_splitTopLevel_parens :
    let t := "é, f(b; WHERE c) somewhere Where x), y".toList
    (∀ k ∈ ["WHERE"], IsStopWord k) ∧
      (∀ e, IsClauseEnd ["WHERE"] t e ↔ e = byteLength "é, f(b; WHERE c) somewhere ".toList) ∧
      (',' ≠ '(' ∧ ',' ≠ ')') ∧
      splitTopLevel ',' t =
        ["é".toList, " f(b; WHERE c) somewhere Where x)".toList, " y".toList] ∧
      (List.range t.length).countP (separatesAt ',' 0 t) = 2 := by
  intro t
  obtain ⟨hclause, hparts⟩ := topLevel_and_splitTopLevel t
  have hstops : ∀ k ∈ ["WHERE"], IsStopWord k := by decide
  have htext : topLevel ["WHERE"] t = "é, f(b; WHERE c) somewhere ".toList := by decide +kernel
  have hsplit : splitTopLevel ',' t =
      ["é".toList, " f(b; WHERE c) somewhere Where x)".toList, " y".toList] := by decide +kernel
  obtain ⟨-, hend⟩ := hclause ["WHERE"] hstops
  obtain ⟨-, hlength⟩ := hparts ',' (by decide) (by decide)
  rw [htext] at hend
  rw [hsplit] at hlength
  exact ⟨hstops, hend, by decide, hsplit, (Nat.succ.inj hlength).symm⟩

end SqlReview.Query

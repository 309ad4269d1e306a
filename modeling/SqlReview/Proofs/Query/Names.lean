import Mathlib.Data.List.Forall2
import SqlReview.Proofs.Query.Scan
import SqlReview.Proofs.Text.LowerCase

/-!
# Bound names of a tidy text

Of the names that a prologue binds, those that one knows are told by how its symbols are read, and
what the reader of a prologue does with a symbol does not depend on names that are not known. The
symbols of a tidy text are the symbols of the text, with tidy names. A quoted name with blanks may
change that way, but the names without blanks that a prologue binds are the same.
-/

namespace SqlReview.Query

open SqlReview.Text SqlReview.Lexical

variable (f : Folding)

/-! ### Symbols -/

/-- A symbol of the tidy text. -/
def Token.tidy (f : Folding) : Token → Token
  | .word w => .word (Text.tidy f w)
  | .quoted w => .quoted (Text.tidy f w)
  | t => t

/-- What stands before a mark, and the mark with what follows it, in the tidy text. -/
theorem span_mark_tidy {m : Char} (hm : isQuote m = true) (s : List Char) :
    (tidy f s).takeWhile (· != m) = tidy f (s.takeWhile (· != m)) ∧
      (tidy f s).dropWhile (· != m) = tidy f (s.dropWhile (· != m)) := by
  apply span_tidy f (p := (· != m))
  · intro c hc
    rw [bne, beq_of_isBlank hc (isBlank_of_isQuote hm), Bool.not_false]
  · intro c
    rw [bne, bne, f.of_beq (isMark_of_isQuote hm)]

private theorem drop_mark_tidy {m : Char} (hm : isQuote m = true) (s : List Char) :
    (tidy f (s.dropWhile (· != m))).drop 1 = tidy f ((s.dropWhile (· != m)).drop 1) := by
  have hhead := List.head?_dropWhile_not (· != m) s
  cases hs : s.dropWhile (· != m) with
  | nil => rfl
  | cons c t =>
    rw [hs] at hhead
    obtain rfl : c = m := by simpa using hhead
    rw [tidy_cons f (isBlank_of_isQuote hm)]
    rfl

private theorem isBare_word {c : Char} (hc : isNameChar c = true) (s : List Char) :
    isBare (c :: s.takeWhile isNameChar) = true := by
  have hall : ∀ d ∈ c :: s.takeWhile isNameChar, isBlank d = false := by
    intro d hd
    have hname : isNameChar d = true := by
      rcases List.mem_cons.mp hd with rfl | hd
      · exact hc
      · exact List.all_eq_true.mp List.all_takeWhile d hd
    rw [Bool.eq_false_iff]
    intro hblank
    rw [isNameChar_of_isBlank hblank] at hname
    exact Bool.false_ne_true hname
  rw [isBare, Bool.not_eq_true', List.any_eq_false]
  intro d hd
  rw [hall d hd]
  decide

/-- A blank is no symbol of a prologue. -/
theorem tokens_blank {c : Char} (hc : isBlank c = true) (s : List Char) :
    tokens (c :: s) = tokens s := by
  rw [tokens, beq_of_isBlank hc (by decide), beq_of_isBlank hc (by decide),
    beq_of_isBlank hc (by decide), beq_of_isBlank hc (by decide), beq_of_isBlank hc (by decide),
    isNameChar_of_isBlank hc]
  simp

/-- The symbols of a tidy text are the symbols of the text. -/
theorem tokens_tidy (s : List Char) : tokens (tidy f s) = (tokens s).map (Token.tidy f) := by
  induction hn : s.length using Nat.strongRecOn generalizing s with
  | ind n ih =>
    cases s with
    | nil => simp [tokens]
    | cons c s =>
      have hs : s.length < n := by
        rw [← hn]
        exact Nat.lt_succ_self _
      by_cases hc : isBlank c = true
      · rw [tokens_blank hc]
        by_cases hnext : startsBlank s = true
        · rw [tidy_blank_of_startsBlank f hc hnext]
          exact ih _ hs s rfl
        · rw [tidy_blank f hc (by simpa using hnext), tokens_blank rfl]
          exact ih _ hs s rfl
      · rw [tidy_cons f (by simpa using hc), tokens, tokens, f.of_beq (k := '(') (by decide),
          f.of_beq (k := ')') (by decide), f.of_beq (k := ',') (by decide),
          f.of_beq (k := backtick) (by decide), f.of_beq (k := doubleQuote) (by decide),
          f.isNameChar_of, ih _ hs s rfl]
        split
        · rfl
        · split
          · rfl
          · split
            · rfl
            · split
              · next hq =>
                have hmark : isQuote c = true := by
                  rw [Bool.or_eq_true, beq_iff_eq, beq_iff_eq] at hq
                  rcases hq with rfl | rfl <;> rfl
                obtain ⟨htake, hrest⟩ := span_mark_tidy f hmark s
                have hdrop := drop_mark_tidy f hmark s
                have hlt : ((s.dropWhile (· != c)).drop 1).length < n := by
                  have := (s.dropWhile_sublist (· != c)).length_le
                  rw [List.length_drop]
                  omega
                rw [f.of_eq_self (isMark_of_isQuote hmark), htake, hrest, hdrop, ih _ hlt _ rfl]
                rfl
              · split
                · next hname =>
                  have hlt : (s.dropWhile isNameChar).length < n := by
                    have := (s.dropWhile_sublist isNameChar).length_le
                    omega
                  have hword := tidy_of_isBare f (isBare_word hname s)
                  rw [takeWhile_tidy f (solid_isNameChar f), dropWhile_tidy f (solid_isNameChar f),
                    ih _ hlt _ rfl, List.map_cons, Token.tidy, hword]
                  rfl
                · rfl

/-! ### The reader of a prologue -/

/-- Whether two names are the same to one who knows some names only. -/
structure SameKnown (known : List Char → Bool) (m n : List Char) : Prop where
  known_eq : known m = known n
  eq_of_known : known m = true → m = n

/-- Whether two words are read alike: they are the same keyword of a prologue, or they name the
same. -/
structure SameWord (known : List Char → Bool) (w w' : List Char) : Prop where
  keyword : ∀ k ∈ ["SELECT", "AS", "WITH", "RECURSIVE"], sameText w k.toList = sameText w' k.toList
  name : SameKnown known (lower w) (lower w')

/-- Whether two symbols are read alike. -/
inductive Token.Same (known : List Char → Bool) : Token → Token → Prop
  | opening : Same known .opening .opening
  | closing : Same known .closing .closing
  | comma : Same known .comma .comma
  | word {w w' : List Char} (h : SameWord known w w') : Same known (.word w) (.word w')
  | quoted {w w' : List Char} (h : SameWord known w w') : Same known (.quoted w) (.quoted w')

variable {known : List Char → Bool}

private theorem filter_insertName (names : List (List Char)) (name : List Char) :
    (insertName names name).filter known =
      if known name then insertName (names.filter known) name else names.filter known := by
  unfold insertName
  by_cases hb : known name = true
  · have hmem : name ∈ names.filter known ↔ name ∈ names := by simp [hb]
    rw [if_pos hb]
    by_cases hn : name ∈ names
    · rw [if_pos hn, if_pos (hmem.mpr hn)]
    · rw [if_neg hn, if_neg (fun h => hn (hmem.mp h)), List.filter_append]
      simp [hb]
  · rw [if_neg hb]
    split
    · rfl
    · rw [List.filter_append]
      simp [hb]

namespace Binder

/-- Whether two readers of a prologue differ in nothing but names that are not known. -/
structure Alike (known : List Char → Bool) (a b : Binder) : Prop where
  depth : a.depth = b.depth
  expecting : a.expecting = b.expecting
  candidate : Option.Rel (SameKnown known) a.candidate b.candidate
  names : a.names.filter known = b.names.filter known

variable {a b : Binder}

private theorem Alike.onWord (h : Alike known a b) {w w' : List Char} (hw : SameWord known w w') :
    Alike known (a.onWord w) (b.onWord w') := by
  unfold Binder.onWord
  rw [hw.keyword "SELECT" (by decide), hw.keyword "AS" (by decide), hw.keyword "WITH" (by decide),
    hw.keyword "RECURSIVE" (by decide), h.depth, h.expecting]
  split
  · exact h
  · split
    · exact h
    · split
      · exact ⟨rfl, rfl, h.candidate, h.names⟩
      · split
        · exact h
        · split
          · exact ⟨rfl, rfl, .some hw.name, h.names⟩
          · exact h

private theorem Alike.isSome (h : Alike known a b) : a.candidate.isSome = b.candidate.isSome := by
  have hc := h.candidate
  generalize a.candidate = x at hc ⊢
  generalize b.candidate = y at hc ⊢
  cases hc <;> rfl

private theorem Alike.bind (h : Alike known a b) :
    (a.candidate.elim a.names (insertName a.names)).filter known =
      (b.candidate.elim b.names (insertName b.names)).filter known := by
  have hc := h.candidate
  generalize a.candidate = x at hc ⊢
  generalize b.candidate = y at hc ⊢
  cases hc with
  | none => exact h.names
  | some hmn =>
    rw [Option.elim_some, Option.elim_some, filter_insertName, filter_insertName, ← hmn.known_eq,
      h.names]
    split
    · next hm => rw [hmn.eq_of_known hm]
    · rfl

private theorem Alike.onOpening (h : Alike known a b) : Alike known a.onOpening b.onOpening := by
  unfold Binder.onOpening
  rw [h.depth, h.expecting, h.isSome]
  split
  · exact ⟨rfl, rfl, h.candidate, h.names⟩
  · split
    · exact ⟨rfl, rfl, .none, h.bind⟩
    · exact ⟨rfl, rfl, h.candidate, h.names⟩
    · exact ⟨rfl, rfl, h.candidate, h.names⟩

private theorem Alike.onClosing (h : Alike known a b) : Alike known a.onClosing b.onClosing := by
  unfold Binder.onClosing
  rw [h.depth, h.expecting]
  split
  · exact h
  · refine ⟨rfl, rfl, ?_, h.names⟩
    split
    · exact h.candidate
    · exact .none
  · exact ⟨rfl, rfl, h.candidate, h.names⟩

private theorem Alike.onComma (h : Alike known a b) : Alike known a.onComma b.onComma := by
  unfold Binder.onComma
  rw [h.depth]
  split
  · exact ⟨rfl, rfl, .none, h.names⟩
  · exact h

/-- Two readers that are alike bind the same known names by symbols that are read alike. -/
theorem Alike.run (h : Alike known a b) {ts ts' : List Token}
    (hts : List.Forall₂ (Token.Same known) ts ts') :
    (a.run ts).filter known = (b.run ts').filter known := by
  induction hts generalizing a b with
  | nil => exact h.names
  | cons ht _ ih =>
    cases ht with
    | opening => exact ih h.onOpening
    | closing => exact ih h.onClosing
    | comma => exact ih h.onComma
    | quoted hw => exact ih (h.onWord hw)
    | word hw =>
      rw [Binder.run, Binder.run, h.depth, hw.keyword "SELECT" (by decide)]
      split
      · exact h.names
      · exact ih (h.onWord hw)

end Binder

/-- The known names that a prologue binds are told by how its symbols are read. -/
theorem filter_boundNames {s t : List Char} (hprologue : hasPrologue s = hasPrologue t)
    (h : List.Forall₂ (Token.Same known) (tokens s) (tokens t)) :
    (boundNames s).filter known = (boundNames t).filter known := by
  have hstart : Binder.Alike known {} {} := ⟨rfl, rfl, .none, rfl⟩
  rw [boundNames, boundNames, hprologue]
  split
  · exact hstart.run h
  · rfl

/-! ### Bare names -/

private theorem sameWord_tidy (w : List Char) : SameWord isBare w (tidy f w) where
  keyword k hk := (sameText_tidy f
    ((by decide : ∀ k ∈ ["SELECT", "AS", "WITH", "RECURSIVE"], IsKeyword k) k hk) w).symm
  name := by
    refine ⟨by rw [isBare_lower, isBare_lower, isBare_tidy], ?_⟩
    intro h
    rw [isBare_lower] at h
    exact (lower_tidy f h).symm

private theorem forall₂_token_tidy (ts : List Token) :
    List.Forall₂ (Token.Same isBare) ts (ts.map (Token.tidy f)) := by
  induction ts with
  | nil => exact .nil
  | cons t ts ih =>
    refine .cons ?_ ih
    cases t with
    | opening => exact .opening
    | closing => exact .closing
    | comma => exact .comma
    | word w => exact .word (sameWord_tidy f w)
    | quoted w => exact .quoted (sameWord_tidy f w)

/-- The bare names that a prologue binds are those that the tidy prologue binds. -/
theorem filter_boundNames_tidy (s : List Char) :
    (boundNames (tidy f s)).filter isBare = (boundNames s).filter isBare := by
  have htokens := forall₂_token_tidy f (tokens s)
  rw [← tokens_tidy] at htokens
  exact (filter_boundNames (hasPrologue_tidy f s).symm htokens).symm

/-- A bare name is bound by a prologue when it is bound by the tidy prologue. -/
theorem mem_boundNames_tidy {name : List Char} (h : isBare name = true) (s : List Char) :
    name ∈ boundNames (tidy f s) ↔ name ∈ boundNames s := by
  have hfilter := congrArg (name ∈ ·) (filter_boundNames_tidy f s)
  simpa [List.mem_filter, h] using hfilter

end SqlReview.Query

import SqlReview.Proofs.Query.Margin
import SqlReview.Proofs.Search.Folded

/-!
# Scans over a folded text

Keywords are read in either case, and parentheses, quotation marks and names are the same in both.
So a scan stops in a folded text where it stops in the text, and the main query and the select list
of a folded text are those of the text, folded.
-/

namespace SqlReview.Query

open SqlReview.Text SqlReview.Lexical SqlReview.Search

variable (f : Folding)

/-! ### Keywords -/

private theorem dropLetters?_map (ks s : List Char) :
    dropLetters? ks (s.map f.of) = (dropLetters? ks s).map (List.map f.of) := by
  induction ks generalizing s with
  | nil => rfl
  | cons k ks ih =>
    cases s with
    | nil => rfl
    | cons c s =>
      rw [List.map_cons, dropLetters?, dropLetters?, f.sameLetter_of]
      split
      · exact ih s
      · rfl

private theorem startsInName_map (s : List Char) : startsInName (s.map f.of) = startsInName s := by
  cases s with
  | nil => rfl
  | cons c s => exact f.isNameChar_of c

private theorem startsWith_map (keyword : String) (s : List Char) :
    startsWith keyword (s.map f.of) = startsWith keyword s := by
  rw [startsWith, startsWith, afterKeyword?, afterKeyword?, dropLetters?_map]
  cases dropLetters? keyword.toList s with
  | none => rfl
  | some rest =>
    rw [Option.map_some, Option.filter_some, Option.filter_some, startsInName_map]
    split <;> rfl

/-! ### The main query -/

/-- The first `SELECT` outside of parentheses and spans is found at the same place of a folded
text. -/
theorem selectFrom_map {span : Option OpenSpan} (hspan : ∀ q, span = some q → isQuote q.mark = true)
    (d : Nat) (b : Bool) (s : List Char) :
    selectFrom d span b (s.map f.of) = (selectFrom d span b s).map (List.map f.of) := by
  induction s generalizing d span b with
  | nil => rfl
  | cons c s ih =>
    cases span with
    | some q =>
      have hq := hspan q rfl
      rw [List.map_cons, selectFrom, selectFrom, next_of f hq, f.isNameChar_of]
      exact ih (fun q' hn => by rw [mark_next hn]; exact hq) d (isNameChar c)
    | none =>
      have hkey := startsWith_map f "SELECT" (c :: s)
      have hnone : ∀ q : OpenSpan, none = some q → isQuote q.mark = true := fun _ h =>
        absurd h (by simp)
      rw [List.map_cons] at hkey ⊢
      rw [selectFrom, selectFrom, f.isQuote_of, f.isNameChar_of, hkey,
        f.of_beq (k := '(') (by decide), f.of_beq (k := ')') (by decide)]
      by_cases hc : isQuote c = true
      · rw [if_pos hc, if_pos hc, f.of_eq_self (isMark_of_isQuote hc)]
        exact ih (fun q hq => Option.some.inj hq ▸ hc) d (isNameChar c)
      · simp only [if_neg hc, ih hnone, apply_ite (Option.map (List.map f.of)), Option.map_some,
          List.map_cons]

private theorem hasPrologue_map (s : List Char) : hasPrologue (s.map f.of) = hasPrologue s := by
  have hblank : isBlank ∘ f.of = isBlank := funext f.isBlank_of
  have htrim : trimStart (s.map f.of) = (trimStart s).map f.of := by
    rw [trimStart, List.dropWhile_map, hblank]
    rfl
  rw [hasPrologue, hasPrologue, htrim, startsWith_map]

/-- The main query of a folded text is the main query, folded. -/
theorem mainQuery_map (s : List Char) : mainQuery (s.map f.of) = (mainQuery s).map f.of := by
  rw [mainQuery, mainQuery, hasPrologue_map, selectFrom_map f (by simp)]
  split
  · cases selectFrom 0 none false s <;> rfl
  · rfl

/-! ### The select list -/

private theorem beforeFrom?_map (d : Nat) (b : Bool) (s : List Char) :
    beforeFrom? d b (s.map f.of) = (beforeFrom? d b s).map (List.map f.of) := by
  induction s generalizing d b with
  | nil => rfl
  | cons c s ih =>
    have hkey := startsWith_map f "FROM" (c :: s)
    rw [List.map_cons] at hkey ⊢
    rw [beforeFrom?, beforeFrom?, f.isNameChar_of, hkey, f.of_beq (k := '(') (by decide),
      f.of_beq (k := ')') (by decide)]
    split
    · rfl
    · split
      · rfl
      · simp only [ih, Option.map_map]
        rfl

/-- The select list of a folded text is the select list, folded. -/
theorem selectList?_map (s : List Char) :
    selectList? (s.map f.of) = (selectList? s).map (List.map f.of) := by
  have hselect : (Phrase.words ["SELECT"]).Caseless f := Phrase.caseless_words (by decide)
  rw [selectList?_eq_bind, selectList?_eq_bind, remainders_fold hselect, List.head?_map]
  cases (remainders (Phrase.words ["SELECT"]) s).head? with
  | none => rfl
  | some rest => exact beforeFrom?_map f 0 false rest

end SqlReview.Query

import SqlReview.Proofs.Lexical.Literal
import SqlReview.Proofs.Lexical.Region
import SqlReview.Proofs.Text.Tidy

/-!
# Letter case, comments and literals

No mark that a reader of comments or literals asks for is a letter, so a text can be put in lower
case before or after its comments are removed and its literals blanked.
-/

namespace SqlReview.Lexical

open SqlReview.Text

variable (f : Folding)

/-- A folded text begins with a mark when the text does. -/
theorem head?_map_of {k : Char} (hk : IsMark k) (s : List Char) :
    (s.map f.of).head? = some k ↔ s.head? = some k := by
  cases s with
  | nil => exact Iff.rfl
  | cons d s =>
    rw [List.map_cons, List.head?_cons, List.head?_cons, Option.some_inj, Option.some_inj]
    exact f.of_eq_iff hk d

private theorem opensComment_map (c : Char) (s : List Char) :
    opensComment (f.of c) (s.map f.of) ↔ opensComment c s := by
  rw [opensComment, opensComment, f.of_eq_iff (by decide), f.of_eq_iff (by decide),
    head?_map_of f (by decide), head?_map_of f (by decide)]

private theorem afterCode_of (c : Char) : Region.afterCode (f.of c) = Region.afterCode c := by
  unfold Region.afterCode
  rw [isQuote_eq_of_sameLetter (f.same c)]
  split
  · next h => rw [f.of_eq_self (isMark_of_isQuote h)]
  · rfl

private theorem afterQuoted_of {m : Char} (hm : isQuote m = true) (c : Char) :
    Region.afterQuoted m (f.of c) = Region.afterQuoted m c := by
  unfold Region.afterQuoted
  simp only [f.of_eq_iff (isMark_of_isQuote hm)]

/-- Comments are removed from a folded text as from the text. -/
theorem removeFrom_map {r : Region} (hr : r.Marked) (s : List Char) :
    removeFrom r (s.map f.of) = (removeFrom r s).map f.of := by
  have hdash : f.of '-' = '-' := f.of_eq_self (by decide)
  have hslash : f.of '/' = '/' := f.of_eq_self (by decide)
  have hstar : f.of '*' = '*' := f.of_eq_self (by decide)
  have hback : f.of '\\' = '\\' := f.of_eq_self (by decide)
  fun_induction removeFrom r s with
  | case1 r => cases r <;> rfl
  | case2 s ih =>
    rw [List.map_cons, List.map_cons, hdash, removeFrom, ih trivial]
  | case3 s ih =>
    rw [List.map_cons, List.map_cons, hslash, hstar, removeFrom, ih trivial]
  | case4 c s hc hc' ih =>
    have hopens := not_opensComment hc hc'
    rw [List.map_cons, removeFrom_code_cons (by rwa [opensComment_map]), afterCode_of,
      ih (marked_afterCode c), List.map_cons]
  | case5 m c s ih =>
    rw [List.map_cons, List.map_cons, hback, removeFrom, ih hr, List.map_cons, List.map_cons, hback]
  | case6 m c s hc ih =>
    have hlast : f.of c = '\\' → s.map f.of = [] := by
      intro h
      rw [f.of_eq_iff (by decide)] at h
      rw [eq_nil_of_backslash hc h, List.map_nil]
    rw [List.map_cons, removeFrom_quoted_cons hlast, afterQuoted_of f hr,
      ih (marked_afterQuoted hr c), List.map_cons]
  | case7 s ih =>
    have hfeed : f.of '\n' = '\n' := f.of_eq_self (by decide)
    rw [List.map_cons, hfeed, removeFrom, if_pos rfl, ih trivial, List.map_cons, hfeed]
  | case8 c s hc ih =>
    have hc' : f.of c ≠ '\n' := by rwa [ne_eq, f.of_eq_iff (by decide)]
    rw [List.map_cons, removeFrom, if_neg hc', ih trivial]
  | case9 s ih =>
    have hspace : f.of ' ' = ' ' := f.of_eq_self (by decide)
    rw [List.map_cons, List.map_cons, hstar, hslash, removeFrom, ih trivial, List.map_cons, hspace]
  | case10 c s hc ih =>
    have hopen : f.of c = '*' → (s.map f.of).head? ≠ some '/' := by
      intro h hs
      rw [f.of_eq_iff (by decide)] at h
      rw [head?_map_of f (by decide)] at hs
      obtain ⟨t, rfl⟩ := List.head?_eq_some_iff.mp hs
      exact hc t h rfl
    rw [List.map_cons, removeFrom_blockComment_cons hopen, ih trivial]

/-- Comments are removed from a text in lower case as from the text. -/
theorem removeComments_lowerAscii (s : List Char) :
    removeComments (lowerAscii s) = lowerAscii (removeComments s) :=
  removeFrom_map .lower (r := .code) trivial s

/-! ### Literals -/

private theorem content_lowerAscii (b : Bool) (c : Char) :
    content b c.toLower = lowerAscii (content b c) := by
  have hsize : c.toLower.utf8Size = c.utf8Size := Folding.lower.utf8Size_of c
  unfold content
  rw [hsize]
  split
  · rw [lowerAscii, List.map_replicate]
    rfl
  · rfl

/-- Literals are blanked in a text in lower case as in the text. -/
theorem blankFrom_lowerAscii (filled : Char → Bool) {mark : Option Char}
    (hmark : ∀ m, mark = some m → isQuote m = true) (s : List Char) :
    blankFrom filled mark (lowerAscii s) = lowerAscii (blankFrom filled mark s) := by
  have hcons : ∀ (c : Char) (s : List Char), lowerAscii (c :: s) = c.toLower :: lowerAscii s := by
    intro c s
    rfl
  have happend : ∀ s t : List Char, lowerAscii (s ++ t) = lowerAscii s ++ lowerAscii t := by
    intro s t
    exact List.map_append
  have hback : '\\'.toLower = '\\' := rfl
  fun_induction blankFrom filled mark s with
  | case1 mark => cases mark <;> rfl
  | case2 c s ih =>
    have hquote : isQuote c.toLower = isQuote c :=
      isQuote_eq_of_sameLetter (Folding.lower.same c)
    have hnext : (if isQuote c.toLower then some c.toLower else none) =
        if isQuote c then some c else none := by
      rw [hquote]
      split
      · next hc => exact congrArg some (Folding.lower.of_eq_self (isMark_of_isQuote hc))
      · rfl
    rw [hcons, blankFrom, hnext, ih, hcons]
    intro m hm
    split at hm
    · next hc =>
      obtain rfl := Option.some.inj hm
      exact hc
    · exact absurd hm (by simp)
  | case3 mark c s ih =>
    rw [hcons, hcons, hback, blankFrom, ih hmark, happend, happend, ← content_lowerAscii,
      ← content_lowerAscii, hback]
  | case4 mark s hc ih =>
    have hm : mark.toLower = mark := Folding.lower.of_eq_self (isMark_of_isQuote (hmark mark rfl))
    rw [hcons, hm, blankFrom, if_pos rfl, ih (by simp), hcons, hm]
    rintro d t rfl
    exact absurd (hmark '\\' rfl) (by decide)
  | case5 mark c s hc hne ih =>
    have hlower : ∀ k : Char, IsMark k → (c.toLower = k ↔ c = k) := by
      intro k hk
      exact Folding.lower.of_eq_iff hk c
    have hne' : c.toLower ≠ mark := by
      rwa [ne_eq, hlower mark (isMark_of_isQuote (hmark mark rfl))]
    rw [hcons, blankFrom, if_neg hne', ih hmark, happend, content_lowerAscii]
    intro d t hd ht
    rw [hlower '\\' (by decide)] at hd
    cases s with
    | nil => exact absurd ht (by simp [lowerAscii])
    | cons e s => exact hc e s hd rfl

/-- Literals are blanked in a text in lower case as in the text. -/
theorem blankLiterals_lowerAscii (s : List Char) :
    blankLiterals (lowerAscii s) = lowerAscii (blankLiterals s) :=
  blankFrom_lowerAscii _ (by simp) s

/-- Strings are blanked in a text in lower case as in the text. -/
theorem blankStrings_lowerAscii (s : List Char) :
    blankStrings (lowerAscii s) = lowerAscii (blankStrings s) :=
  blankFrom_lowerAscii _ (by simp) s

end SqlReview.Lexical

import Mathlib.Data.List.Infix
import SqlReview.Proofs.Query.TopLevel
import SqlReview.Proofs.Search.Mark

/-!
# The first clause

The first clause of a kind in a text with a part in parentheses. When nothing before the part
introduces a clause, it is the first clause of the part, or else the first clause of what follows.
A clause in a part that closes its parentheses ends with the part at the latest.
-/

namespace SqlReview.Query

open SqlReview.Text SqlReview.Search

variable {a : Phrase} {s u v : List Char}

/-! ### The body of a clause -/

/-- Whether every parenthesis that a text opens is closed in it: from no place on does the text open
more than it closes. -/
def ClosesOpened (s : List Char) : Prop :=
  ∀ r, r <:+ s → r.count '(' ≤ r.count ')'

/-- Whether a text closes what it opens is told place by place. -/
instance (s : List Char) : Decidable (ClosesOpened s) :=
  decidable_of_iff (∀ r ∈ s.tails, r.count '(' ≤ r.count ')') <| by
    simp only [List.mem_tails, ClosesOpened]

/-- A clause that closes all parentheses that it opens, and those that are open before it, ends
before a closing parenthesis at the latest. -/
theorem topLevelFrom_closing {stops : List String}
    (hstops : ∀ k ∈ stops, ∀ c ∈ k.toList, isNameChar c = true) {depth : Nat}
    (h : depth + u.count '(' ≤ u.count ')') (inName : Bool) (s : List Char) :
    (topLevelFrom stops depth inName (u ++ ')' :: s)).1 =
      (topLevelFrom stops depth inName u).1 := by
  have hname : startsInName (')' :: s) = false := (by decide : isNameChar ')' = false)
  induction u generalizing depth inName with
  | nil =>
    obtain rfl : depth = 0 := Nat.le_zero.mp h
    rfl
  | cons c u ih =>
    rw [List.cons_append, topLevelFrom, topLevelFrom, endsBefore_append hstops hname]
    split
    · rfl
    · next hends =>
      have hrest : depthAfter depth c + u.count '(' ≤ u.count ')' := by
        rw [List.count_cons, List.count_cons] at h
        by_cases hopen : c = '('
        · subst hopen
          simp [depthAfter] at h ⊢
          omega
        · by_cases hclose : c = ')'
          · subst hclose
            -- outside of parentheses the clause would end here
            have hdepth : depth ≠ 0 := by
              rintro rfl
              exact hends rfl
            simp [depthAfter] at h ⊢
            omega
          · simpa [depthAfter, hopen, hclose] using h
      exact congrArg (c :: ·) (ih hrest _)

private theorem isNameChar_of_mem_clauseStops :
    ∀ k ∈ clauseStops, ∀ c ∈ k.toList, isNameChar c = true := by
  decide +kernel

/-! ### Where the first clause stands -/

private theorem clauseBody?_eq (a : Phrase) (s : List Char) :
    clauseBody? a s = (remainders a s).head?.map (topLevel clauseStops) := by
  rw [clauseBody?, ← map_rest_find?, Option.map_map]
  rfl

/-- A clause has a body where its phrase is found. -/
@[simp] theorem isSome_clauseBody? (a : Phrase) (s : List Char) :
    (clauseBody? a s).isSome = holds a s := by
  rw [clauseBody?, Option.isSome_map, holds]

/-- Blanks before a text make no difference to the body of a clause. -/
theorem clauseBody?_blanks_append (h : a.Refuses) (hv : isBlankText v = true) (s : List Char) :
    clauseBody? a (v ++ s) = clauseBody? a s := by
  rw [clauseBody?_eq, clauseBody?_eq, remainders_blanks_append h hv]

/-- The first clause of a part in parentheses comes before the first clause of what follows. -/
theorem clauseBody?_parens (hopen : a.avoids '(' = true) (hclose : a.avoids ')' = true)
    (hmoves : a.Moves) (hfront : holds a u = false) (hinside : holds a v = true → ClosesOpened v)
    (s : List Char) :
    clauseBody? a (u ++ '(' :: (v ++ ')' :: s)) = (clauseBody? a v).or (clauseBody? a s) := by
  have hnone := (remainders_eq_nil_iff a u).mpr hfront
  simp only [clauseBody?_eq]
  rw [remainders_mark (by decide) hopen hmoves, hnone, List.map_nil, List.nil_append,
    remainders_mark (by decide) hclose hmoves]
  cases hremainders : remainders a v with
  | nil => rfl
  | cons r rs =>
    have hmem : r ∈ remainders a v := hremainders ▸ List.mem_cons_self ..
    have hheld : holds a v = true := by
      rw [holds_eq_isSome_remainders, hremainders]
      rfl
    have hcount : 0 + r.count '(' ≤ r.count ')' := by
      rw [Nat.zero_add]
      exact hinside hheld r (suffix_of_mem_remainders hmem)
    have hbody : topLevel clauseStops (r ++ ')' :: s) = topLevel clauseStops r :=
      topLevelFrom_closing isNameChar_of_mem_clauseStops hcount false s
    simp [hbody]

end SqlReview.Query

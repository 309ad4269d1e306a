import SqlReview.Query.Subquery
import Mathlib.Data.List.Infix
import Mathlib.Data.List.MinMax
import Mathlib.Order.BoundedOrder.Lattice

/-!
# Nesting of subqueries

The subqueries that are open at a place are told by a stack of parentheses. The depth of a text is
counted without one: a closing parenthesis ends a subquery whichever parenthesis it closes. Such a
count never says too much, and it falls behind the stack from the first parenthesis on that is
closed inside of a subquery without being one, until the subquery ends.
-/

namespace SqlReview.Query

open SqlReview.Text SqlReview.Lexical

/-! ### Parentheses -/

/-- A parenthesis outside of spans. An opening one is followed by a `SELECT` or not. -/
inductive Paren
  | subquery
  | other
  | closing
  deriving DecidableEq, Repr

/-- The parenthesis that a character outside of spans is, with the text after it. -/
def paren? (c : Char) (s : List Char) : Option Paren :=
  if c == '(' then some (if startsWith "SELECT" (trimStart s) then .subquery else .other)
  else if c == ')' then some .closing
  else none

/-- The parentheses of a text that are outside of spans. -/
def parens (span : Option OpenSpan) : List Char → List Paren
  | [] => []
  | c :: s =>
    match span with
    | some q => parens (q.next c) s
    | none =>
      if isQuote c then parens (some { mark := c }) s
      else (paren? c s).toList ++ parens none s

/-- A parenthesis that has not been closed: whether a `SELECT` follows it, and whether a
parenthesis that is followed by no `SELECT` has been closed in it. -/
structure OpenParen where
  subquery : Bool
  disturbed : Bool := false
  deriving DecidableEq, Repr

/-- The open parentheses after one more, from the innermost to the outermost. A closing
parenthesis closes the innermost one, and counts for nothing where none is open. -/
def openAfter : List OpenParen → Paren → List OpenParen
  | stack, .subquery => { subquery := true } :: stack
  | stack, .other => { subquery := false } :: stack
  | [], .closing => []
  | p :: stack, .closing =>
    if p.subquery then stack else stack.map fun q => { q with disturbed := true }

/-- The open parentheses at every place of a text: after every run of parentheses that it begins
with. -/
def openAt (s : List Char) : List (List OpenParen) :=
  (parens none s).inits.map fun run => run.foldl openAfter []

/-- The number of open parentheses that a `SELECT` follows. -/
def openSubqueries (stack : List OpenParen) : Nat :=
  stack.countP (·.subquery)

/-- The greatest number of a list, zero if there is none. -/
def greatest (l : List Nat) : Nat :=
  l.foldr max 0

/-- The nesting depth of the subqueries of a text: the greatest number of open parentheses that a
`SELECT` follows, over all places. -/
def nestingDepth (s : List Char) : Nat :=
  greatest ((openAt s).map openSubqueries)

private theorem le_greatest {l : List Nat} {n : Nat} (h : n ∈ l) : n ≤ greatest l :=
  List.le_max_of_le' 0 h le_rfl

private theorem greatest_le {l : List Nat} {n : Nat} (h : ∀ m ∈ l, m ≤ n) : greatest l ≤ n := by
  induction l with
  | nil => exact Nat.zero_le n
  | cons m l ih =>
    have hrest := ih fun k hk => h k (List.mem_cons_of_mem m hk)
    exact Nat.max_le.mpr ⟨h m (List.mem_cons_self ..), hrest⟩

/-- The greatest number is the first one or the greatest of the others. -/
@[simp] theorem greatest_cons (n : Nat) (l : List Nat) :
    greatest (n :: l) = max n (greatest l) := rfl

private theorem greatest_mem {l : List Nat} (h : l ≠ []) : greatest l ∈ l := by
  induction l with
  | nil => exact absurd rfl h
  | cons n l ih =>
    rw [greatest_cons]
    rcases Nat.le_total (greatest l) n with hle | hle
    · rw [Nat.max_eq_left hle]
      exact List.mem_cons_self ..
    · rw [Nat.max_eq_right hle]
      cases l with
      | nil => exact List.mem_cons.mpr (.inl (Nat.le_zero.mp hle).symm)
      | cons m l => exact List.mem_cons_of_mem n (ih (List.cons_ne_nil m l))

/-! ### The count -/

/-- The count of open subqueries after a parenthesis. -/
def countAfter (n : Nat) : Paren → Nat
  | .subquery => n + 1
  | .other => n
  | .closing => n - 1

/-- The counts at every place, with `n` at the first. -/
def counts (n : Nat) (ps : List Paren) : List Nat :=
  ps.inits.map fun run => run.foldl countAfter n

/-- Without parentheses the count is told at one place. -/
@[simp] theorem counts_nil (n : Nat) : counts n [] = [n] := rfl

/-- The count at the first place is told, and those at the others follow from it. -/
@[simp] theorem counts_cons (n : Nat) (p : Paren) (ps : List Paren) :
    counts n (p :: ps) = n :: counts (countAfter n p) ps := by
  simp [counts, List.map_map, Function.comp_def]

private theorem counts_ne_nil (n : Nat) (ps : List Paren) : counts n ps ≠ [] := by
  cases ps <;> simp

private theorem le_greatest_counts (n : Nat) (ps : List Paren) : n ≤ greatest (counts n ps) := by
  cases ps with
  | nil => exact Nat.le_max_left n 0
  | cons p ps =>
    rw [counts_cons]
    exact Nat.le_max_left ..

/-- The depth of a text is the greatest count over its parentheses. -/
theorem subqueryDepthFrom_eq (n : Nat) (span : Option OpenSpan) (s : List Char) :
    subqueryDepthFrom n span s = greatest (counts n (parens span s)) := by
  induction s generalizing n span with
  | nil => exact (Nat.max_zero n).symm
  | cons c s ih =>
    rw [subqueryDepthFrom.eq_def, parens.eq_def]
    cases span with
    | some q => exact ih n (q.next c)
    | none =>
      simp only [paren?]
      by_cases hquote : isQuote c = true
      · rw [if_pos hquote, if_pos hquote]
        exact ih n (some { mark := c })
      rw [if_neg hquote, if_neg hquote]
      by_cases hopen : c = '('
      · subst hopen
        by_cases hselect : startsWith "SELECT" (trimStart s) = true
        · have hle := le_greatest_counts (n + 1) (parens none s)
          simp [hselect, ih, countAfter]
          omega
        · have hle := le_greatest_counts n (parens none s)
          simp [hselect, ih, countAfter]
          omega
      by_cases hclose : c = ')'
      · subst hclose
        simp [ih, countAfter]
      · simp [hopen, hclose, ih]

/-- The greatest depth is no less than the depth at the start. -/
theorem le_subqueryDepthFrom (n : Nat) (span : Option OpenSpan) (s : List Char) :
    n ≤ subqueryDepthFrom n span s := by
  rw [subqueryDepthFrom_eq]
  exact le_greatest_counts n (parens span s)

/-! ### The count and the stack -/

/-- A count that falls behind a stack: it is never above the number of open subqueries, and equal
to it exactly while none of these is disturbed. What is disturbed is so for all that is around. -/
structure Behind (n : Nat) (stack : List OpenParen) : Prop where
  le : n ≤ openSubqueries stack
  eq_iff : n = openSubqueries stack ↔ ∀ p ∈ stack, p.subquery = true → p.disturbed = false
  outward : stack.Pairwise fun p q => p.disturbed = true → q.disturbed = true

private theorem openSubqueries_map_disturb (stack : List OpenParen) :
    openSubqueries (stack.map fun q => { q with disturbed := true }) = openSubqueries stack :=
  List.countP_map ..

private theorem openSubqueries_pos {stack : List OpenParen} :
    0 < openSubqueries stack ↔ ∃ p ∈ stack, p.subquery = true :=
  List.countP_pos_iff

private theorem Behind.opening {n : Nat} {stack : List OpenParen} (h : Behind n stack) (b : Bool) :
    Behind (n + if b then 1 else 0) ({ subquery := b } :: stack) := by
  have hcount : openSubqueries ({ subquery := b } :: stack) =
      openSubqueries stack + if b then 1 else 0 := List.countP_cons ..
  refine ⟨?_, ?_, ?_⟩
  · rw [hcount]
    exact Nat.add_le_add_right h.le _
  · rw [hcount, Nat.add_right_cancel_iff, h.eq_iff]
    simp
  · exact List.pairwise_cons.mpr ⟨fun _ _ hp => absurd hp Bool.false_ne_true, h.outward⟩

/-- The end of a subquery lowers the count and the stack. -/
theorem Behind.closing_subquery {n : Nat} {p : OpenParen} {stack : List OpenParen}
    (h : Behind n (p :: stack)) (hp : p.subquery = true) : Behind (n - 1) stack := by
  have hcount : openSubqueries (p :: stack) = openSubqueries stack + 1 :=
    List.countP_cons_of_pos hp
  have hle : n ≤ openSubqueries stack + 1 := hcount ▸ h.le
  have heq := h.eq_iff
  rw [hcount] at heq
  obtain ⟨hout, hrest⟩ := List.pairwise_cons.mp h.outward
  refine ⟨by omega, ⟨?_, ?_⟩, hrest⟩
  · intro hn q hq hsub
    -- an open subquery is left, so the count has been lowered from one above it
    have hpos := openSubqueries_pos.mpr ⟨q, hq, hsub⟩
    exact heq.mp (by omega) q (List.mem_cons_of_mem p hq) hsub
  · intro hclean
    by_cases hdist : p.disturbed = true
    · -- all around is disturbed, so no subquery is open any more
      have hnone : openSubqueries stack = 0 := by
        refine List.countP_eq_zero.mpr fun q hq hsub => ?_
        exact absurd (hout q hq hdist) (by simp [hclean q hq hsub])
      have hne : n ≠ openSubqueries stack + 1 := fun hn =>
        absurd hdist (by simp [heq.mp hn p (List.mem_cons_self ..) hp])
      omega
    · have hn : n = openSubqueries stack + 1 := by
        refine heq.mpr fun q hq hsub => ?_
        rcases List.mem_cons.mp hq with rfl | hq
        · exact Bool.not_eq_true _ ▸ hdist
        · exact hclean q hq hsub
      omega

/-- The end of any other parenthesis lowers the count alone. -/
theorem Behind.closing_other {n : Nat} {p : OpenParen} {stack : List OpenParen}
    (h : Behind n (p :: stack)) (hp : ¬p.subquery = true) :
    Behind (n - 1) (stack.map fun q => { q with disturbed := true }) := by
  have hcount : openSubqueries (p :: stack) = openSubqueries stack := List.countP_cons_of_neg hp
  have hle : n ≤ openSubqueries stack := hcount ▸ h.le
  refine ⟨?_, ?_, ?_⟩
  · rw [openSubqueries_map_disturb]
    omega
  · rw [openSubqueries_map_disturb]
    constructor
    · intro hn q hq hsub
      obtain ⟨r, hr, rfl⟩ := List.mem_map.mp hq
      have hpos := openSubqueries_pos.mpr ⟨r, hr, hsub⟩
      omega
    · intro hclean
      have hnone : openSubqueries stack = 0 := by
        refine List.countP_eq_zero.mpr fun q hq hsub => ?_
        exact absurd (hclean _ (List.mem_map_of_mem hq) hsub) Bool.noConfusion
      omega
  · exact List.pairwise_map.mpr (List.pairwise_of_forall fun _ _ _ => rfl)

private theorem Behind.after {n : Nat} {stack : List OpenParen} (h : Behind n stack) (p : Paren) :
    Behind (countAfter n p) (openAfter stack p) := by
  cases p with
  | subquery => exact h.opening true
  | other => exact h.opening false
  | closing =>
    cases stack with
    | nil =>
      have hn : n = 0 := Nat.le_zero.mp h.le
      subst hn
      exact h
    | cons p stack =>
      rw [openAfter, countAfter]
      split
      · exact h.closing_subquery ‹_›
      · exact h.closing_other ‹_›

private theorem Behind.foldl {n : Nat} {stack : List OpenParen} (h : Behind n stack)
    (run : List Paren) : Behind (run.foldl countAfter n) (run.foldl openAfter stack) := by
  induction run generalizing n stack with
  | nil => exact h
  | cons p run ih => exact ih (h.after p)

/-! ### The greatest count -/

/-- Whether a run of parentheses brings a count from `d` to `n` or more, where no closing one is
lost. -/
def Surplus (n d : Nat) (run : List Paren) : Prop :=
  n + run.count .closing ≤ d + run.count .subquery

private theorem surplus_nil {n d : Nat} : Surplus n d [] ↔ n ≤ d :=
  Iff.rfl

private theorem Surplus.mono {n d : Nat} {run : List Paren} (h : Surplus n 0 run) :
    Surplus n d run :=
  Nat.le_trans h (Nat.add_le_add_right (Nat.zero_le d) _)

private theorem Surplus.of_cons {n d : Nat} {p : Paren} {run : List Paren}
    (h : Surplus n d (p :: run)) : Surplus n (countAfter d p) run := by
  cases p <;> simp only [Surplus, countAfter, List.count_cons] at h ⊢ <;> simp at h <;> omega

/-- A closing parenthesis is lost where nothing is open: what follows it starts anew. -/
theorem Surplus.cons {n d : Nat} {p : Paren} {run : List Paren}
    (h : Surplus n (countAfter d p) run) : Surplus n d (p :: run) ∨ Surplus n 0 run := by
  cases p <;> simp only [Surplus, countAfter, List.count_cons] at h ⊢ <;> simp <;> omega

private theorem le_greatest_counts_iff (n d : Nat) (ps : List Paren) :
    n ≤ greatest (counts d ps) ↔
      (∃ run, run <+: ps ∧ Surplus n d run) ∨ ∃ run, run <:+: ps ∧ Surplus n 0 run := by
  induction ps generalizing d with
  | nil =>
    simp [Surplus, greatest]
    omega
  | cons p ps ih =>
    rw [counts_cons, greatest_cons, le_max_iff, ih]
    have hfirst : ∀ run, run <+: p :: ps → Surplus n d run →
        n ≤ d ∨ ∃ run, run <+: ps ∧ Surplus n (countAfter d p) run := by
      intro run hrun hsurplus
      rcases List.prefix_cons_iff.mp hrun with rfl | ⟨t, rfl, ht⟩
      · exact .inl (surplus_nil.mp hsurplus)
      · exact .inr ⟨t, ht, hsurplus.of_cons⟩
    constructor
    · rintro (hn | ⟨run, hrun, hsurplus⟩ | ⟨run, hrun, hsurplus⟩)
      · exact .inl ⟨[], List.nil_prefix, hn⟩
      · rcases hsurplus.cons with hsurplus | hsurplus
        · exact .inl ⟨p :: run, List.cons_prefix_cons.mpr ⟨rfl, hrun⟩, hsurplus⟩
        · exact .inr ⟨run, List.infix_cons hrun.isInfix, hsurplus⟩
      · exact .inr ⟨run, List.infix_cons hrun, hsurplus⟩
    · rintro (⟨run, hrun, hsurplus⟩ | ⟨run, hrun, hsurplus⟩)
      · exact or_assoc.mp (.inl (hfirst run hrun hsurplus))
      · rcases List.infix_cons_iff.mp hrun with hrun | hrun
        · exact or_assoc.mp (.inl (hfirst run hrun hsurplus.mono))
        · exact .inr (.inr ⟨run, hrun, hsurplus⟩)

/-! ### The two depths -/

/-- The depth that is counted for a text is the greatest surplus of subqueries that a run of its
parentheses opens over the parentheses that it closes. It is never above the nesting depth, and
equal to it exactly if the nesting depth is met at a place where nothing but subqueries has been
closed in any open subquery. -/
theorem subqueryDepth_eq_nestingDepth_iff (s : List Char) :
    (∀ n, n ≤ subqueryDepth s ↔
      ∃ run, run <:+: parens none s ∧ n + run.count .closing ≤ run.count .subquery) ∧
    subqueryDepth s ≤ nestingDepth s ∧
    (subqueryDepth s = nestingDepth s ↔
      ∃ stack ∈ openAt s, openSubqueries stack = nestingDepth s ∧
        ∀ p ∈ stack, p.subquery = true → p.disturbed = false) := by
  have hdepth : subqueryDepth s = greatest (counts 0 (parens none s)) :=
    subqueryDepthFrom_eq 0 none s
  have hstart : Behind 0 [] := ⟨Nat.le_refl 0, by simp [openSubqueries], .nil⟩
  have hbehind : ∀ run, Behind (List.foldl countAfter 0 run) (List.foldl openAfter [] run) :=
    hstart.foldl
  have hnesting : ∀ stack ∈ openAt s, openSubqueries stack ≤ nestingDepth s := fun stack h =>
    le_greatest (List.mem_map_of_mem h)
  have hle : subqueryDepth s ≤ nestingDepth s := by
    rw [hdepth]
    refine greatest_le fun n hn => ?_
    obtain ⟨run, hrun, rfl⟩ := List.mem_map.mp hn
    exact (hbehind run).le.trans (hnesting _ (List.mem_map_of_mem hrun))
  refine ⟨fun n => ?_, hle, ⟨fun heq => ?_, ?_⟩⟩
  · rw [hdepth, le_greatest_counts_iff]
    have hzero : ∀ run, Surplus n 0 run ↔ n + run.count .closing ≤ run.count .subquery := by
      intro run
      rw [Surplus, Nat.zero_add]
    simp only [hzero]
    constructor
    · rintro (⟨run, hrun, h⟩ | h)
      · exact ⟨run, hrun.isInfix, h⟩
      · exact h
    · exact .inr
  · have hmem := greatest_mem (counts_ne_nil 0 (parens none s))
    obtain ⟨run, hrun, hcount⟩ := List.mem_map.mp hmem
    have h : Behind (subqueryDepth s) (run.foldl openAfter []) :=
      hdepth.trans hcount.symm ▸ hbehind run
    have hat : run.foldl openAfter [] ∈ openAt s := List.mem_map_of_mem hrun
    have hopen : openSubqueries (run.foldl openAfter []) = nestingDepth s :=
      Nat.le_antisymm (hnesting _ hat) (heq ▸ h.le)
    exact ⟨_, hat, hopen, h.eq_iff.mp (heq.trans hopen.symm)⟩
  · rintro ⟨stack, hstack, hopen, hclean⟩
    obtain ⟨run, hrun, rfl⟩ := List.mem_map.mp hstack
    refine Nat.le_antisymm hle ?_
    rw [hdepth, ← hopen, ← (hbehind run).eq_iff.mpr hclean]
    exact le_greatest (List.mem_map_of_mem hrun)

/-- The call closes in the outer subquery, and the inner one takes its place in the count. -/
example :
    let s := "SELECT a FROM (SELECT a FROM t WHERE f(b) = 1 AND c IN (SELECT c FROM u)) s".toList
    subqueryDepth s = 1 ∧ nestingDepth s = 2 := by
  decide +kernel

end SqlReview.Query

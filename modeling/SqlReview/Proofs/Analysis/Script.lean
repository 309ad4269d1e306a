import SqlReview.Analysis
import SqlReview.Proofs.Lexical.Script
import SqlReview.Proofs.Rule.Evaluate

/-!
# Scripts and their verdicts

A script can be analyzed in parts: what stands before a semicolon of the code and what stands
after it do not touch each other. The verdict on a script is told in three ways, by the most
serious tier of each statement, by the counts of its summary and by the exit code. All three read
the tiers of the same recommendations, so they agree and they add up over the parts.
-/

namespace SqlReview

open SqlReview.Lexical SqlReview.Rule

/-! ### The most serious tier -/

namespace Rule.Severity

private theorem foldl_worst (worst : Option Severity) (tiers : List Severity) :
    tiers.foldl (fun worst tier => some (worst.elim tier (max tier))) worst =
      Option.merge max worst (worst? tiers) := by
  induction tiers generalizing worst with
  | nil => cases worst <;> rfl
  | cons t tiers ih =>
    rw [worst?, List.foldl_cons, List.foldl_cons, ih, ih]
    -- what is left is that the more serious tier does not depend on the order of comparing
    rcases worst with _ | _ | _ | _ <;> rcases t with _ | _ | _ <;>
      rcases worst? tiers with _ | _ | _ | _ <;> rfl

/-- The most serious tier of two lists is the more serious one of theirs. -/
theorem worst?_append (l m : List Severity) :
    worst? (l ++ m) = Option.merge max (worst? l) (worst? m) := by
  rw [worst?, List.foldl_append, foldl_worst]
  rfl

private theorem worst?_cons (t : Severity) (l : List Severity) :
    worst? (t :: l) = some ((worst? l).elim t (max t)) := by
  rw [← List.singleton_append, worst?_append]
  cases worst? l <;> rfl

/-- The most serious tier of several lists can be looked for in each of them first. -/
theorem worst?_filterMap_worst? (ls : List (List Severity)) :
    worst? (ls.filterMap worst?) = worst? ls.flatten := by
  induction ls with
  | nil => rfl
  | cons l ls ih =>
    rw [List.flatten_cons, worst?_append, ← ih, List.filterMap_cons]
    cases worst? l with
    | none => cases worst? (ls.filterMap worst?) <;> rfl
    | some t =>
      rw [worst?_cons]
      cases worst? (ls.filterMap worst?) <;> rfl

/-- Only an empty list has no most serious tier. -/
theorem worst?_eq_none_iff {l : List Severity} : worst? l = none ↔ l = [] := by
  cases l with
  | nil => simp [worst?]
  | cons t l => simp [worst?_cons]

private theorem max_eq_or (a b : Severity) : a.max b = a ∨ a.max b = b := by
  rw [max]
  split
  · exact .inr rfl
  · exact .inl rfl

/-- The most serious of several tiers is one of them, and none comes before it in a report. -/
theorem mem_and_rank_le_of_worst? {l : List Severity} {t : Severity} (h : worst? l = some t) :
    t ∈ l ∧ ∀ u ∈ l, t.rank ≤ u.rank := by
  induction l generalizing t with
  | nil => simp [worst?] at h
  | cons a l ih =>
    rw [worst?_cons, Option.some_inj] at h
    subst h
    cases hw : worst? l with
    | none =>
      rw [worst?_eq_none_iff.mp hw]
      simp
    | some w =>
      obtain ⟨hmem, hle⟩ := ih hw
      rw [Option.elim_some, rank_max]
      constructor
      · rcases max_eq_or a w with h | h
        · rw [h]
          exact List.mem_cons_self
        · rw [h]
          exact List.mem_cons_of_mem a hmem
      · intro u hu
        rcases List.mem_cons.mp hu with rfl | hu
        · exact Nat.min_le_left _ _
        · exact Nat.le_trans (Nat.min_le_right _ _) (hle u hu)

/-- The most serious of several tiers is the one of them that comes first in a report. -/
theorem worst?_eq_some_iff {l : List Severity} {t : Severity} :
    worst? l = some t ↔ t ∈ l ∧ ∀ u ∈ l, t.rank ≤ u.rank := by
  refine ⟨mem_and_rank_le_of_worst?, fun ⟨ht, hle⟩ => ?_⟩
  cases hw : worst? l with
  | none =>
    rw [worst?_eq_none_iff.mp hw] at ht
    contradiction
  | some w =>
    obtain ⟨hwl, hwle⟩ := mem_and_rank_le_of_worst? hw
    exact congrArg some (rank_injective (Nat.le_antisymm (hwle t ht) (hle w hwl)))

end Rule.Severity

/-! ### Verdicts on analyses -/

/-- The tiers of all recommendations in some analyses. -/
def tiersOf (analyses : List Analysis) : List Severity :=
  (analyses.map fun analysis => analysis.result.recommendations.map (·.severity)).flatten

/-- The tiers in two lists of analyses are those of the one and those of the other. -/
theorem tiersOf_append (l m : List Analysis) : tiersOf (l ++ m) = tiersOf l ++ tiersOf m := by
  rw [tiersOf, List.map_append, List.flatten_append]
  rfl

private theorem count_tiersOf_cons (severity : Severity) (analysis : Analysis) (l : List Analysis) :
    (tiersOf (analysis :: l)).count severity =
      analysis.result.count severity + (tiersOf l).count severity := by
  rw [tiersOf, List.map_cons, List.flatten_cons, List.count_append, List.count, List.countP_map]
  rfl

/-- A summary counts the tiers. -/
theorem total_eq_count (severity : Severity) (analyses : List Analysis) :
    total severity analyses = (tiersOf analyses).count severity := by
  have hfrom : ∀ n, analyses.foldl (fun n analysis => n + analysis.result.count severity) n =
      n + (tiersOf analyses).count severity := by
    induction analyses with
    | nil => exact fun n => rfl
    | cons analysis l ih =>
      intro n
      rw [List.foldl_cons, ih, count_tiersOf_cons, Nat.add_assoc]
  rw [total, hfrom, Nat.zero_add]

private theorem worst?_analyses (analyses : List Analysis) :
    Severity.worst? (analyses.filterMap (·.result.worst?)) =
      Severity.worst? (tiersOf analyses) := by
  rw [tiersOf, ← Severity.worst?_filterMap_worst?, List.filterMap_map]
  rfl

/-- The exit code is told by what a summary counts. -/
theorem exitCode_eq (analyses : List Analysis) :
    exitCode analyses =
      if 0 < (Summary.of analyses).critical then 2
      else if 0 < (Summary.of analyses).warning then 1
      else 0 := by
  simp only [Summary.of, total_eq_count, List.count_pos_iff]
  rw [exitCode, worst?_analyses]
  cases hw : Severity.worst? (tiersOf analyses) with
  | none => simp [Severity.worst?_eq_none_iff.mp hw]
  | some t =>
    obtain ⟨hmem, hle⟩ := Severity.worst?_eq_some_iff.mp hw
    have hnone : ∀ s : Severity, s.rank < t.rank → s ∉ tiersOf analyses :=
      fun s hs hmem => absurd hs (Nat.not_lt.mpr (hle s hmem))
    cases t with
    | critical => simp [hmem]
    | warning => simp [hmem, hnone .critical (by decide)]
    | info => simp [hnone .critical (by decide), hnone .warning (by decide)]

/-- The sum of two summaries, count by count. -/
def Summary.add (a b : Summary) : Summary where
  statements := a.statements + b.statements
  critical := a.critical + b.critical
  warning := a.warning + b.warning
  info := a.info + b.info

/-- Summaries are added count by count. -/
instance : Add Summary := ⟨Summary.add⟩

/-- Summaries add up. -/
theorem summary_append (l m : List Analysis) :
    Summary.of (l ++ m) = Summary.of l + Summary.of m := by
  simp only [Summary.of, total_eq_count, tiersOf_append, List.count_append, List.length_append]
  rfl

/-- The exit code of two lists of analyses is the greater one of theirs. -/
theorem exitCode_append (l m : List Analysis) :
    exitCode (l ++ m) = max (exitCode l) (exitCode m) := by
  have hcritical : (Summary.of (l ++ m)).critical =
      (Summary.of l).critical + (Summary.of m).critical := by
    rw [summary_append]
    rfl
  have hwarning : (Summary.of (l ++ m)).warning =
      (Summary.of l).warning + (Summary.of m).warning := by
    rw [summary_append]
    rfl
  rw [exitCode_eq, exitCode_eq, exitCode_eq, hcritical, hwarning]
  grind

/-! ### The most serious tier of a statement -/

/-- The recommendations for a statement stand in the order of their tiers. -/
theorem pairwise_examine (rules : List Rule) (s : List Char) :
    (examine rules s).2.recommendations.Pairwise fun a b =>
      a.severity.rank ≤ b.severity.rank := by
  rw [examine]
  split
  · exact .nil
  · exact pairwise_sortByTier _

/-- The most serious tier of a statement is that of the first recommendation for it. -/
theorem worst?_examine (rules : List Rule) (s : List Char) :
    (examine rules s).2.worst? = (examine rules s).2.recommendations.head?.map (·.severity) := by
  have hsorted := pairwise_examine rules s
  rw [Result.worst?]
  cases hr : (examine rules s).2.recommendations with
  | nil => rfl
  | cons r l =>
    rw [hr, List.pairwise_cons] at hsorted
    rw [List.head?_cons, Option.map_some, Severity.worst?_eq_some_iff, List.map_cons]
    refine ⟨List.mem_cons_self, fun u hu => ?_⟩
    rcases List.mem_cons.mp hu with rfl | hu
    · exact Nat.le_refl _
    · obtain ⟨q, hq, rfl⟩ := List.mem_map.mp hu
      exact hsorted.1 q hq

/-! ### Scripts in parts -/

/-- The analyses of a script under some settings. -/
def analysesOf (settings : Settings) (script : List Char) : List Analysis :=
  examineAll (enabled settings) (statements script)

/-- An analysis with a number of statements in front. -/
def Analysis.shift (n : Nat) (analysis : Analysis) : Analysis :=
  { analysis with index := n + analysis.index }

/-- There are as many analyses as statements. -/
theorem length_examineAll (rules : List Rule) (l : List (List Char)) :
    (examineAll rules l).length = l.length := by
  rw [examineAll, List.length_map, List.length_zipIdx]

/-- The analysis of a statement does not depend on the others; only its place is counted. -/
theorem examineAll_append (rules : List Rule) (l m : List (List Char)) :
    examineAll rules (l ++ m) =
      examineAll rules l ++ (examineAll rules m).map (Analysis.shift l.length) := by
  rw [examineAll, examineAll, examineAll, List.zipIdx_append, List.map_append, List.map_map,
    Nat.zero_add, List.zipIdx_eq_map_add (i := l.length), List.map_map]
  rfl

private theorem tiersOf_map_shift (n : Nat) (analyses : List Analysis) :
    tiersOf (analyses.map (Analysis.shift n)) = tiersOf analyses := by
  rw [tiersOf, List.map_map]
  rfl

private theorem summary_map_shift (n : Nat) (analyses : List Analysis) :
    Summary.of (analyses.map (Analysis.shift n)) = Summary.of analyses := by
  simp only [Summary.of, total_eq_count, tiersOf_map_shift, List.length_map]

private theorem exitCode_map_shift (n : Nat) (analyses : List Analysis) :
    exitCode (analyses.map (Analysis.shift n)) = exitCode analyses := by
  rw [exitCode_eq, exitCode_eq, summary_map_shift]

/-- The analyses of a script are those of its two sides about a semicolon of the code. -/
theorem analysesOf_append_semicolon (settings : Settings) (a b : List Char)
    (h : Region.code.after a = .code) :
    analysesOf settings (a ++ ';' :: b) =
      analysesOf settings a ++
        (analysesOf settings b).map (Analysis.shift (analysesOf settings a).length) := by
  rw [analysesOf, statements_append_semicolon a b h, examineAll_append, analysesOf, analysesOf,
    length_examineAll]

/-- Under any settings a script is analyzed in the parts before and after a semicolon of the code:
the analyses of the second part follow those of the first, their places counted on, the summaries
add up and the greater exit code stands. The exit code of any analyses is 2 when the summary counts
something critical, 1 when it counts warnings and nothing critical, and else 0. The most serious
tier of a statement is that of the first recommendation for it. -/
theorem script_in_parts_and_verdicts (settings : Settings) :
    (∀ a b : List Char, Region.code.after a = .code →
      analysesOf settings (a ++ ';' :: b) =
          analysesOf settings a ++
            (analysesOf settings b).map (Analysis.shift (analysesOf settings a).length) ∧
        Summary.of (analysesOf settings (a ++ ';' :: b)) =
          Summary.of (analysesOf settings a) + Summary.of (analysesOf settings b) ∧
        exitCode (analysesOf settings (a ++ ';' :: b)) =
          max (exitCode (analysesOf settings a)) (exitCode (analysesOf settings b))) ∧
    (∀ analyses : List Analysis,
      (exitCode analyses = 2 ↔ 0 < (Summary.of analyses).critical) ∧
        (exitCode analyses = 1 ↔
          (Summary.of analyses).critical = 0 ∧ 0 < (Summary.of analyses).warning) ∧
        (exitCode analyses = 0 ↔
          (Summary.of analyses).critical = 0 ∧ (Summary.of analyses).warning = 0)) ∧
    ∀ batch : List (List Char), ∀ analysis ∈ examineAll (enabled settings) batch,
      analysis.result.worst? = analysis.result.recommendations.head?.map (·.severity) := by
  refine ⟨fun a b h => ?_, fun analyses => ?_, fun batch analysis hmem => ?_⟩
  · rw [analysesOf_append_semicolon settings a b h, summary_append, exitCode_append,
      summary_map_shift, exitCode_map_shift]
    exact ⟨rfl, rfl, rfl⟩
  · rw [exitCode_eq]
    grind
  · obtain ⟨⟨s, index⟩, -, rfl⟩ := List.mem_map.mp hmem
    exact worst?_examine (enabled settings) s

/-- A script whose first semicolon stands in a comment. -/
theorem exitCode_after_comment :
    Region.code.after "SELECT 1 -- ;\n".toList = .code ∧
      exitCode (analysesOf {} "SELECT 1 -- ;\n;DELETE FROM t".toList) =
        max (exitCode (analysesOf {} "SELECT 1 -- ;\n".toList))
          (exitCode (analysesOf {} "DELETE FROM t".toList)) :=
  ⟨by decide, ((script_in_parts_and_verdicts {}).1 "SELECT 1 -- ;\n".toList "DELETE FROM t".toList
    (by decide)).2.2⟩

end SqlReview

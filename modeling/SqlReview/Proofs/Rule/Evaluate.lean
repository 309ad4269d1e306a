import Mathlib.Data.List.Nodup
import SqlReview.Rule.Catalogue

/-!
# Recommendations in the order of a report

The report sorts recommendations by tier and leaves each tier as it stands, so it is the three
tiers one after the other. Recommendations can therefore be left out before or after the sorting,
and what a report says apart from some rules depends on the checks of the other rules alone.
-/

namespace SqlReview.Rule

/-! ### The three tiers -/

/-- The recommendations of one tier. -/
def tier (s : Severity) (l : List Recommendation) : List Recommendation :=
  l.filter (·.severity = s)

private theorem rank_le_trans (a b c : Recommendation)
    (h1 : decide (a.severity.rank ≤ b.severity.rank) = true)
    (h2 : decide (b.severity.rank ≤ c.severity.rank) = true) :
    decide (a.severity.rank ≤ c.severity.rank) = true := by
  rw [decide_eq_true_eq] at h1 h2 ⊢
  exact Nat.le_trans h1 h2

private theorem rank_le_total (a b : Recommendation) :
    (decide (a.severity.rank ≤ b.severity.rank) || decide (b.severity.rank ≤ a.severity.rank)) =
      true := by
  rw [Bool.or_eq_true, decide_eq_true_eq, decide_eq_true_eq]
  exact Nat.le_total _ _

/-- A sorted list stands in the order of its tiers. -/
theorem pairwise_sortByTier (l : List Recommendation) :
    (sortByTier l).Pairwise fun a b => a.severity.rank ≤ b.severity.rank := by
  have h := List.pairwise_mergeSort rank_le_trans rank_le_total l
  exact h.imp fun hab => by simpa using hab

/-- Sorting leaves each tier as it stands. -/
theorem tier_sortByTier (s : Severity) (l : List Recommendation) :
    tier s (sortByTier l) = tier s l := by
  have hsub : (tier s l).Sublist (sortByTier l) := by
    apply List.sublist_mergeSort rank_le_trans rank_le_total
    · apply List.Pairwise.imp_of_mem _ (List.pairwise_of_forall fun _ _ => trivial)
      intro a b ha hb _
      have hra : a.severity = s := by simpa [tier] using (List.mem_filter.mp ha).2
      have hrb : b.severity = s := by simpa [tier] using (List.mem_filter.mp hb).2
      have hranks : a.severity.rank = b.severity.rank := by rw [hra, hrb]
      exact decide_eq_true (Nat.le_of_eq hranks)
    · exact List.filter_sublist
  have hself : tier s (tier s l) = tier s l := by
    rw [tier, tier, List.filter_filter]
    simp
  have hsub' : (tier s l).Sublist (tier s (sortByTier l)) := by
    rw [← hself]
    exact hsub.filter _
  have hperm : (tier s (sortByTier l)).Perm (tier s l) := (List.mergeSort_perm l _).filter _
  exact (hsub'.eq_of_length hperm.length_eq.symm).symm

/-- A list in the order of its tiers is its tiers one after the other. -/
theorem eq_tiers_of_pairwise {l : List Recommendation}
    (h : l.Pairwise fun a b => a.severity.rank ≤ b.severity.rank) :
    l = tier .critical l ++ tier .warning l ++ tier .info l := by
  induction l with
  | nil => rfl
  | cons r l ih =>
    obtain ⟨hr, hl⟩ := List.pairwise_cons.mp h
    have hnone : ∀ s : Severity, s.rank < r.severity.rank → tier s l = [] := by
      intro s hs
      apply List.filter_eq_nil_iff.mpr
      intro a ha
      have hle := hr a ha
      simp only [decide_eq_true_eq]
      rintro rfl
      exact absurd hs (Nat.not_lt.mpr hle)
    have hih := ih hl
    cases hs : r.severity with
    | critical =>
      simp only [tier, List.filter_cons, hs] at hih ⊢
      simpa using hih
    | warning =>
      have hc := hnone .critical (by rw [hs]; decide)
      rw [hc] at hih
      simp only [tier, List.filter_cons, hs] at hih hc ⊢
      simpa [hc] using hih
    | info =>
      have hc := hnone .critical (by rw [hs]; decide)
      have hw := hnone .warning (by rw [hs]; decide)
      rw [hc, hw] at hih
      simp only [tier, List.filter_cons, hs] at hih hc hw ⊢
      simpa [hc, hw] using hih

/-- A report lists the critical recommendations, then the warnings, then the others. -/
theorem sortByTier_eq_tiers (l : List Recommendation) :
    sortByTier l = tier .critical l ++ tier .warning l ++ tier .info l := by
  have h := eq_tiers_of_pairwise (pairwise_sortByTier l)
  simpa only [tier_sortByTier] using h

/-! ### Rules and their ids -/

/-- No two rules of the catalogue have one id. -/
theorem nodup_catalogue_ids : (catalogue.map (·.entry.id)).Nodup := by
  decide +kernel

/-- A rule of the catalogue is told by its id. -/
theorem eq_of_id_eq {r q : Rule} (hr : r ∈ catalogue) (hq : q ∈ catalogue)
    (h : r.entry.id = q.entry.id) : r = q :=
  List.inj_on_of_nodup_map nodup_catalogue_ids hr hq h

/-! ### Leaving recommendations out -/

private theorem filter_sortByTier (p : Recommendation → Bool) (l : List Recommendation) :
    (sortByTier l).filter p = sortByTier (l.filter p) := by
  have htier : ∀ s, (tier s l).filter p = tier s (l.filter p) := by
    intro s
    rw [tier, tier, List.filter_filter, List.filter_filter]
    exact List.filter_congr fun r _ => Bool.and_comm _ _
  rw [sortByTier_eq_tiers, sortByTier_eq_tiers, ← htier, ← htier, ← htier, List.filter_append,
    List.filter_append]

private theorem filter_fired_eq_fired_filter (p : String → Bool) (rules : List Rule) (s : Subject) :
    (fired rules s).filter (p ·.id) = fired (rules.filter (p ·.entry.id)) s := by
  rw [fired, fired, List.filter_filterMap, List.filterMap_filter]
  congr 1
  funext r
  rw [apply]
  cases r.check s with
  | none => simp
  | some f => simp [Option.filter, Entry.recommend]

/-- A report without some rules is the report of the others. -/
theorem filter_evaluate_eq_evaluate_filter (p : String → Bool) (rules : List Rule) (s : Subject) :
    (evaluate rules s).filter (p ·.id) = evaluate (rules.filter (p ·.entry.id)) s := by
  rw [evaluate, evaluate, filter_sortByTier, filter_fired_eq_fired_filter]

/-- Recommendations without those of some rules. -/
def without (ids : List String) (l : List Recommendation) : List Recommendation :=
  l.filter (·.id ∉ ids)

/-- Two subjects for which rules find the same are told the same. -/
theorem fired_congr {rules : List Rule} {s t : Subject} (h : ∀ r ∈ rules, r.check s = r.check t) :
    fired rules s = fired rules t := by
  apply List.filterMap_congr
  intro r hr
  rw [apply, apply, h r hr]

/-- An enabled rule is a rule of the catalogue, its tier apart. -/
theorem exists_mem_catalogue {settings : Settings} {r : Rule} (h : r ∈ enabled settings) :
    ∃ q ∈ catalogue, r.entry.id = q.entry.id ∧ r.check = q.check := by
  obtain ⟨q, hq, rfl⟩ := List.mem_map.mp h
  exact ⟨q, (List.mem_filter.mp hq).1, rfl, rfl⟩

/-- Two subjects for which the other rules of the catalogue find the same get the same report apart
from some rules. -/
theorem without_evaluate_congr {ids : List String} (settings : Settings) {s t : Subject}
    (h : ∀ r ∈ catalogue, r.entry.id ∉ ids → r.check s = r.check t) :
    without ids (evaluate (enabled settings) s) = without ids (evaluate (enabled settings) t) := by
  have hothers : ∀ r ∈ (enabled settings).filter (·.entry.id ∉ ids), r.check s = r.check t := by
    intro r hr
    obtain ⟨hr, hid⟩ := List.mem_filter.mp hr
    obtain ⟨q, hq, hqid, hqc⟩ := exists_mem_catalogue hr
    rw [hqc]
    exact h q hq (by simpa [← hqid] using hid)
  have hreport :=
    filter_evaluate_eq_evaluate_filter (fun id => decide (id ∉ ids)) (enabled settings)
  rw [without, without, hreport, hreport, evaluate, evaluate, fired_congr hothers]

end SqlReview.Rule

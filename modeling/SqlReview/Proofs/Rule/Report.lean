import SqlReview.Proofs.Rule.Evaluate

/-!
# What a report says of each rule

A report has at most one recommendation for a rule, since a rule is told by its id, and it says what
is listed of the rule. The recommendations of one tier stand in the order of the catalogue.
-/

namespace SqlReview.Rule

variable (settings : Settings) (subject : Subject)

/-! ### Rules in another tier -/

/-- A recommendation in the tier that settings give to its rule; its own tier, if they give none
that is known. -/
def Recommendation.under (settings : Settings) (x : Recommendation) : Recommendation :=
  { x with severity := (settings.tiers[x.id]?.bind Severity.ofSetting?).getD x.severity }

/-- It makes no difference whether a rule is moved to its tier or what it recommends. -/
theorem apply_under (r : Rule) :
    (r.under settings).apply subject = (r.apply subject).map (·.under settings) := by
  rw [apply, apply, under, Option.map_map]
  rfl

/-- A report is put in order after its recommendations were moved to their tiers. -/
theorem evaluate_enabled_eq_sortByTier :
    evaluate (enabled settings) subject =
      sortByTier ((fired (catalogue.filter fun r =>
          !(Settings.merge {} settings).disables r.entry.id) subject).map
        (·.under (Settings.merge {} settings))) := by
  rw [evaluate, fired, fired, enabled, List.filterMap_map, List.map_filterMap]
  congr 2
  funext r
  exact apply_under (Settings.merge {} settings) subject r

/-! ### One recommendation for a rule -/

/-- The ids of the enabled rules stand in the order of the catalogue. -/
theorem sublist_enabled_ids :
    ((enabled settings).map (·.entry.id)).Sublist (catalogue.map (·.entry.id)) := by
  rw [enabled, List.map_map]
  exact List.filter_sublist.map fun r : Rule => r.entry.id

/-- A rule recommends under its own id. -/
theorem id_of_apply {r : Rule} {x : Recommendation} (h : r.apply subject = some x) :
    x.id = r.entry.id := by
  obtain ⟨f, -, rfl⟩ := Option.map_eq_some_iff.mp h
  rfl

/-- Rules with different ids have at most one recommendation with a given id: that of the rule with
this id. -/
theorem filter_fired {rules : List Rule} (h : (rules.map (·.entry.id)).Nodup) (id : String) :
    (fired rules subject).filter (·.id = id) =
      ((rules.find? (·.entry.id = id)).bind (·.apply subject)).toList := by
  induction rules with
  | nil => rfl
  | cons r rules ih =>
    obtain ⟨hr, hrules⟩ := List.nodup_cons.mp h
    have htail := ih hrules
    rw [fired] at htail ⊢
    by_cases hid : r.entry.id = id
    · have hnone : rules.find? (·.entry.id = id) = none := by
        rw [List.find?_eq_none]
        intro q hq heq
        rw [decide_eq_true_eq] at heq
        exact hr (List.mem_map.mpr ⟨q, hq, heq.trans hid.symm⟩)
      rw [hnone] at htail
      rw [List.find?_cons_of_pos (by simpa using hid), List.filterMap_cons, Option.bind_some]
      cases hx : r.apply subject with
      | none => exact htail
      | some x =>
        have hxid : x.id = id := (id_of_apply subject hx).trans hid
        change (x :: _).filter _ = [x]
        rw [List.filter_cons_of_pos (by simpa using hxid), htail]
        rfl
    · rw [List.find?_cons_of_neg (by simpa using hid), List.filterMap_cons]
      cases hx : r.apply subject with
      | none => exact htail
      | some x =>
        have hxid : ¬ x.id = id := by
          rw [id_of_apply subject hx]
          exact hid
        change (x :: _).filter _ = _
        rw [List.filter_cons_of_neg (by simpa using hxid), htail]

/-- A report has the recommendations of a rule that the enabled rules have. -/
theorem filter_evaluate (id : String) :
    (evaluate (enabled settings) subject).filter (·.id = id) =
      (((enabled settings).find? (·.entry.id = id)).bind (·.apply subject)).toList := by
  have hids := nodup_catalogue_ids.sublist (sublist_enabled_ids settings)
  have hfired := filter_fired subject hids id
  have hperm : ((evaluate (enabled settings) subject).filter (·.id = id)).Perm
      ((fired (enabled settings) subject).filter (·.id = id)) :=
    (List.mergeSort_perm _ _).filter _
  rw [hfired] at hperm
  cases h : ((enabled settings).find? (·.entry.id = id)).bind (·.apply subject) with
  | none =>
    rw [h] at hperm
    exact hperm.eq_nil
  | some x =>
    rw [h] at hperm
    exact List.perm_singleton.mp hperm

/-! ### The order of a report -/

/-- The place of an id in the catalogue. -/
def position (id : String) : Nat :=
  (catalogue.map (·.entry.id)).idxOf id

private theorem pairwise_position_catalogue :
    (catalogue.map (·.entry.id)).Pairwise fun a b => position a < position b := by
  decide +kernel

private theorem pairwise_position_fired :
    (fired (enabled settings) subject).Pairwise fun a b => position a.id < position b.id := by
  have hids := pairwise_position_catalogue.sublist (sublist_enabled_ids settings)
  rw [List.pairwise_map] at hids
  apply hids.filterMap
  intro r q hlt x hx y hy
  rwa [id_of_apply subject hx, id_of_apply subject hy]

/-- Within a tier a sorted list stands as it stood before. -/
theorem pairwise_sortByTier_of {R : Recommendation → Recommendation → Prop}
    {l : List Recommendation} (h : l.Pairwise R) :
    (sortByTier l).Pairwise fun a b => a.severity = b.severity → R a b := by
  have hsame : ∀ s, (tier s l).Pairwise fun a b => a.severity = b.severity → R a b := by
    intro s
    have hsub : (tier s l).Pairwise R := h.sublist List.filter_sublist
    apply hsub.imp
    intro a b hR _
    exact hR
  have hother : ∀ s t, s ≠ t → ∀ a ∈ tier s l, ∀ b ∈ tier t l, a.severity = b.severity → R a b := by
    intro s t hne a ha b hb heq
    have hs : a.severity = s := by simpa [tier] using (List.mem_filter.mp ha).2
    have ht : b.severity = t := by simpa [tier] using (List.mem_filter.mp hb).2
    exact absurd (hs.symm.trans (heq.trans ht)) hne
  rw [sortByTier_eq_tiers, List.pairwise_append, List.pairwise_append]
  refine ⟨⟨hsame _, hsame _, hother _ _ (by decide)⟩, hsame _, ?_⟩
  intro a ha
  rcases List.mem_append.mp ha with ha | ha
  · exact hother _ _ (by decide) a ha
  · exact hother _ _ (by decide) a ha

/-- A report is the stable sort by tier of what the enabled rules find. It has one recommendation
for each enabled rule whose check finds something, under the id, title and tier that are listed for
the rule, and no other; the tiers come one after the other, and within a tier the rules stand in the
order of the catalogue. -/
theorem evaluate_enabled (settings : Settings) (s : List Char) (metrics : Query.Metrics) :
    let subject := Subject.of s metrics
    let listed := entries (enabled settings)
    let report := evaluate (enabled settings) subject
    (∀ r ∈ catalogue, report.filter (·.id = r.entry.id) =
      ((listed.find? (·.id = r.entry.id)).bind fun e => (r.check subject).map e.recommend).toList) ∧
    (∀ x ∈ report, ∃ r ∈ catalogue, x.id = r.entry.id) ∧
    (report.Pairwise fun a b => a.severity.rank ≤ b.severity.rank) ∧
    report.Pairwise fun a b => a.severity = b.severity → position a.id < position b.id := by
  intro subject listed report
  refine ⟨?_, ?_, pairwise_sortByTier _,
    pairwise_sortByTier_of (pairwise_position_fired settings subject)⟩
  · intro r hr
    have hlisted : listed.find? (·.id = r.entry.id) =
        ((enabled settings).find? (·.entry.id = r.entry.id)).map (·.entry) := List.find?_map ..
    rw [filter_evaluate, hlisted]
    cases hq : (enabled settings).find? (·.entry.id = r.entry.id) with
    | none => rfl
    | some q =>
      obtain ⟨q', hq', hid, hcheck⟩ := exists_mem_catalogue (List.mem_of_find?_eq_some hq)
      have hqid : q.entry.id = r.entry.id := by simpa using List.find?_some hq
      obtain rfl : q' = r := eq_of_id_eq hq' hr (hid.symm.trans hqid)
      rw [Option.bind_some, Option.map_some, Option.bind_some, apply, hcheck]
  · intro x hx
    have hfired : x ∈ fired (enabled settings) subject := (List.mergeSort_perm _ _).mem_iff.mp hx
    obtain ⟨r, hr, hx⟩ := List.mem_filterMap.mp hfired
    obtain ⟨q, hq, hid, -⟩ := exists_mem_catalogue hr
    exact ⟨q, hq, (id_of_apply subject hx).trans hid⟩

/-- The rule on limits under settings that move it up. -/
theorem evaluate_moved_limit :
    let settings : Settings :=
      { tiers := ({} : Std.ExtTreeMap String String).insert "missing-limit" "error" }
    let moved : Entry := { missingLimit.entry with severity := .critical }
    let subject := Subject.of "SELECT a FROM t".toList {}
    missingLimit ∈ catalogue ∧
      (evaluate (enabled settings) subject).filter (·.id = "missing-limit") =
        ((missingLimit.check subject).map moved.recommend).toList := by
  intro settings moved subject
  have hmem : missingLimit ∈ catalogue := List.mem_of_getElem (i := 5) (h := by decide) rfl
  have hlisted :
      (entries (enabled settings)).find? (·.id = missingLimit.entry.id) = some moved := by
    decide +kernel
  refine ⟨hmem, ((evaluate_enabled settings _ {}).1 missingLimit hmem).trans ?_⟩
  rw [hlisted]
  rfl

end SqlReview.Rule

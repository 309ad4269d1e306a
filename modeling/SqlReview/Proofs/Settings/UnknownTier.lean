import SqlReview.Proofs.Settings.Layers

/-!
# Entries with unknown tiers

A layer may name a tier that there is not. Which entry of a layer counts for a rule is told by the
spelling of its id alone, before the name of the tier is read. So an unknown name makes no
difference by itself, but it can hide an entry with a known one: then the rule keeps its own tier,
and without the unknown name it would be listed in the other.
-/

namespace SqlReview.Settings

open SqlReview.Rule

/-! ### The greatest spelling -/

/-- Whether a spelling of an id is the greatest one that a layer has. -/
structure Greatest (settings : Settings) (spelling id : String) : Prop where
  mem : spelling ∈ settings.tiers
  same : sameId spelling id = true
  le : ∀ other ∈ settings.tiers, sameId other id = true →
    other = spelling ∨ BytewiseLess other spelling

private theorem Greatest.named? {settings : Settings} {spelling id tier : String}
    (h : settings.Greatest spelling id) (htier : settings.tiers[spelling]? = some tier) :
    settings.named? id = some tier :=
  named?_eq_some htier h.same h.le

private theorem exists_greatest_of_named? {settings : Settings} {id tier : String}
    (h : settings.named? id = some tier) :
    ∃ spelling, settings.Greatest spelling id ∧ settings.tiers[spelling]? = some tier := by
  obtain ⟨spelling, htier, hsame, hle⟩ := exists_spelling_of_named? h
  exact ⟨spelling, ⟨mem_tiers_iff.mpr ⟨tier, htier⟩, hsame, hle⟩, htier⟩

/-! ### Settings without an entry -/

/-- Settings without the tier under one spelling. -/
def eraseTier (settings : Settings) (spelling : String) : Settings :=
  { settings with tiers := settings.tiers.erase spelling }

private theorem getElem?_tiers_eraseTier_of_ne (settings : Settings) {spelling other : String}
    (h : spelling ≠ other) :
    (settings.eraseTier spelling).tiers[other]? = settings.tiers[other]? := by
  rw [eraseTier, Std.ExtTreeMap.getElem?_erase, if_neg (mt Std.compare_eq_iff_eq.mp h)]

private theorem mem_tiers_eraseTier_iff {settings : Settings} {spelling other : String} :
    other ∈ (settings.eraseTier spelling).tiers ↔ spelling ≠ other ∧ other ∈ settings.tiers := by
  rw [eraseTier, Std.ExtTreeMap.mem_erase, ne_eq, ne_eq, Std.compare_eq_iff_eq]

/-- An entry that is not under the greatest spelling makes no difference. -/
theorem named?_eraseTier_of_not_greatest {settings : Settings} {spelling id : String}
    (h : ¬ settings.Greatest spelling id) :
    (settings.eraseTier spelling).named? id = settings.named? id := by
  cases hnamed : settings.named? id with
  | none =>
    rw [named?_eq_none_iff] at hnamed ⊢
    intro other hother
    exact hnamed other (mem_tiers_eraseTier_iff.mp hother).2
  | some tier =>
    obtain ⟨greatest, hgreatest, htier⟩ := exists_greatest_of_named? hnamed
    have hne : spelling ≠ greatest := by
      rintro rfl
      exact h hgreatest
    apply named?_eq_some ((getElem?_tiers_eraseTier_of_ne settings hne).trans htier) hgreatest.same
    intro other hother hsame
    exact hgreatest.le other (mem_tiers_eraseTier_iff.mp hother).2 hsame

/-! ### Hidden tiers -/

/-- Whether an entry of a layer hides a tier from a rule. It has the greatest spelling of the rule's
id, and the one under the greatest of the other spellings names a tier other than the rule's own. -/
structure Hides (settings : Settings) (spelling : String) (e : Entry) : Prop where
  greatest : settings.Greatest spelling e.id
  hidden : ∃ next tier severity, (settings.eraseTier spelling).Greatest next e.id ∧
    settings.tiers[next]? = some tier ∧ Severity.ofSetting? tier = some severity ∧
    severity ≠ e.severity

private theorem listedSeverity_of_named? {settings : Settings} {e : Entry} {tier : String}
    (h : settings.named? e.id = some tier) :
    listedSeverity settings e = (Severity.ofSetting? tier).getD e.severity := by
  rw [listedSeverity, h, Option.bind_some]

/-- Where the greatest spelling of a rule's id has an unknown tier, the rule is listed in its own.
-/
theorem listedSeverity_of_unknown {settings : Settings} {e : Entry} {spelling tier : String}
    (htier : settings.tiers[spelling]? = some tier) (hunknown : Severity.ofSetting? tier = none)
    (h : settings.Greatest spelling e.id) : listedSeverity settings e = e.severity := by
  rw [listedSeverity_of_named? (h.named? htier), hunknown, Option.getD_none]

/-- An entry with an unknown tier makes no difference to a rule unless it hides a tier from it. -/
theorem listedSeverity_eraseTier_iff {settings : Settings} {spelling tier : String} (e : Entry)
    (htier : settings.tiers[spelling]? = some tier) (hunknown : Severity.ofSetting? tier = none) :
    listedSeverity (settings.eraseTier spelling) e = listedSeverity settings e ↔
      ¬ settings.Hides spelling e := by
  by_cases h : settings.Greatest spelling e.id
  · rw [listedSeverity_of_unknown htier hunknown h]
    have hnext : ∀ {next value}, (settings.eraseTier spelling).Greatest next e.id →
        settings.tiers[next]? = some value →
        listedSeverity (settings.eraseTier spelling) e =
          (Severity.ofSetting? value).getD e.severity := by
      intro next value hgreatest hvalue
      have hne : spelling ≠ next := (mem_tiers_eraseTier_iff.mp hgreatest.mem).1
      rw [← getElem?_tiers_eraseTier_of_ne settings hne] at hvalue
      exact listedSeverity_of_named? (hgreatest.named? hvalue)
    constructor
    · rintro heq ⟨-, next, value, severity, hgreatest, hvalue, hseverity, hne⟩
      rw [hnext hgreatest hvalue, hseverity, Option.getD_some] at heq
      exact hne heq
    · intro hhides
      cases hnamed : (settings.eraseTier spelling).named? e.id with
      | none => rw [listedSeverity, hnamed, Option.bind_none, Option.getD_none]
      | some value =>
        obtain ⟨next, hgreatest, hvalue⟩ := exists_greatest_of_named? hnamed
        have hne : spelling ≠ next := (mem_tiers_eraseTier_iff.mp hgreatest.mem).1
        rw [getElem?_tiers_eraseTier_of_ne settings hne] at hvalue
        rw [hnext hgreatest hvalue]
        cases hseverity : Severity.ofSetting? value with
        | none => rfl
        | some severity =>
          by_contra hother
          exact hhides ⟨h, next, value, severity, hgreatest, hvalue, hseverity, hother⟩
  · have hsame : listedSeverity (settings.eraseTier spelling) e = listedSeverity settings e := by
      rw [listedSeverity, named?_eraseTier_of_not_greatest h, listedSeverity]
    exact iff_of_true hsame fun hhides => h hhides.greatest

/-! ### Rules without an entry -/

/-- Settings without a tier leave the same rules enabled. -/
theorem enabled_eraseTier (settings : Settings) (spelling : String) :
    enabled (settings.eraseTier spelling) =
      (catalogue.filter fun r => !settings.disables r.entry.id).map
        (listed (settings.eraseTier spelling)) :=
  enabled_eq_map_listed (settings.eraseTier spelling)

/-- The same is listed with and without an entry when no enabled rule changes its tier. -/
theorem entries_eraseTier_eq_iff (settings : Settings) (spelling : String) :
    entries (enabled (settings.eraseTier spelling)) = entries (enabled settings) ↔
      ∀ r ∈ catalogue, settings.disables r.entry.id = false →
        listedSeverity (settings.eraseTier spelling) r.entry = listedSeverity settings r.entry := by
  rw [entries, entries, enabled_eraseTier, enabled_eq_map_listed, List.map_map, List.map_map,
    List.map_inj_left]
  constructor
  · intro h r hr henabled
    exact congrArg Entry.severity (h r (List.mem_filter.mpr ⟨hr, by rw [henabled]; rfl⟩))
  · intro h r hr
    obtain ⟨hr, henabled⟩ := List.mem_filter.mp hr
    have hseverity := h r hr (by simpa using henabled)
    show (listed (settings.eraseTier spelling) r).entry = (listed settings r).entry
    rw [listed, listed, hseverity]

private theorem enabled_eraseTier_eq {settings : Settings} {spelling : String}
    (h : entries (enabled (settings.eraseTier spelling)) = entries (enabled settings)) :
    enabled (settings.eraseTier spelling) = enabled settings := by
  rw [entries_eraseTier_eq_iff] at h
  rw [enabled_eraseTier, enabled_eq_map_listed]
  apply List.map_congr_left
  intro r hr
  obtain ⟨hr, henabled⟩ := List.mem_filter.mp hr
  rw [listed, listed, h r hr (by simpa using henabled)]

/-- An entry with an unknown tier can be left out if and only if it hides no tier from an enabled
rule: then the same rules are listed in the same tiers, and they say the same of every statement. A
rule from which it hides a tier is listed in its own. -/
theorem unknown_tier_without_effect_iff {settings : Settings} {spelling tier : String}
    (htier : settings.tiers[spelling]? = some tier) (hunknown : Severity.ofSetting? tier = none) :
    (entries (enabled (settings.eraseTier spelling)) = entries (enabled settings) ↔
      ∀ r ∈ catalogue, settings.disables r.entry.id = false → ¬ settings.Hides spelling r.entry) ∧
    (entries (enabled (settings.eraseTier spelling)) = entries (enabled settings) →
      ∀ (s : List Char) (metrics : Query.Metrics),
        evaluate (enabled (settings.eraseTier spelling)) (Subject.of s metrics) =
          evaluate (enabled settings) (Subject.of s metrics)) ∧
    ∀ r ∈ catalogue, settings.Hides spelling r.entry →
      ∀ e ∈ entries (enabled settings), e.id = r.entry.id → e.severity = r.entry.severity := by
  refine ⟨?_, ?_, ?_⟩
  · simp only [entries_eraseTier_eq_iff, listedSeverity_eraseTier_iff _ htier hunknown]
  · intro h s metrics
    rw [enabled_eraseTier_eq h]
  · intro r hr hhides e he hid
    rw [severity_of_mem_entries hr he hid]
    exact listedSeverity_of_unknown htier hunknown hhides.greatest

/-- A known tier for a rule, and an unknown one under a greater spelling of its id. -/
theorem unknown_tier_hides_known :
    let noTiers : Std.ExtTreeMap String String := {}
    let settings : Settings :=
      { tiers := (noTiers.insert "Select-Star" "info").insert "select-star" "bogus" }
    (settings.tiers["select-star"]? = some "bogus" ∧ Severity.ofSetting? "bogus" = none) ∧
      settings.Hides "select-star" selectStar.entry ∧
      entries (enabled (settings.eraseTier "select-star")) ≠ entries (enabled settings) := by
  intro noTiers settings
  have htier : settings.tiers["select-star"]? = some "bogus" :=
    Std.ExtTreeMap.getElem?_insert_self
  have hunknown : Severity.ofSetting? "bogus" = none := by decide
  have hmem : ∀ other, other ∈ settings.tiers ↔ other = "select-star" ∨ other = "Select-Star" := by
    intro other
    show other ∈ (noTiers.insert "Select-Star" "info").insert "select-star" "bogus" ↔ _
    rw [Std.ExtTreeMap.mem_insert, Std.ExtTreeMap.mem_insert, Std.compare_eq_iff_eq,
      Std.compare_eq_iff_eq, eq_comm, eq_comm (b := other),
      or_iff_left (Std.ExtTreeMap.not_mem_empty (k := other))]
  have hother : settings.tiers["Select-Star"]? = some "info" := by
    show ((noTiers.insert "Select-Star" "info").insert "select-star" "bogus")["Select-Star"]? = _
    rw [Std.ExtTreeMap.getElem?_insert, if_neg (by decide), Std.ExtTreeMap.getElem?_insert_self]
  have hhides : settings.Hides "select-star" selectStar.entry := by
    refine ⟨⟨(hmem _).mpr (.inl rfl), by decide, ?_⟩,
      "Select-Star", "info", .info, ⟨?_, by decide, ?_⟩, hother, by decide, by decide⟩
    · intro other hin _
      apply ((hmem other).mp hin).imp id
      rintro rfl
      exact bytewiseLess_of_lt (by decide) (by decide)
    · exact mem_tiers_eraseTier_iff.mpr ⟨by decide, (hmem _).mpr (.inr rfl)⟩
    · intro other hin _
      obtain ⟨hne, hin⟩ := mem_tiers_eraseTier_iff.mp hin
      exact .inl (((hmem other).mp hin).resolve_left (Ne.symm hne))
  refine ⟨⟨htier, hunknown⟩, hhides, ?_⟩
  intro heq
  exact (unknown_tier_without_effect_iff htier hunknown).1.mp heq selectStar
    (List.mem_cons_self ..) rfl hhides

end SqlReview.Settings

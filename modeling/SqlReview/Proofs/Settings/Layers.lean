import Mathlib.Data.List.Induction
import SqlReview.Proofs.Rule.Enabled

/-!
# Settings in layers

Settings come about in steps: other settings are laid over them, or further rules are disabled.
Whatever the steps were, no disabled id is spelled twice and the ids of tiers are in lower case. A
rule is disabled once any step disables it, and its tier is the one that the last step to name a
tier for it names.
-/

namespace SqlReview.Settings

open SqlReview.Text SqlReview.Rule

/-! ### Steps -/

/-- A change of settings. -/
inductive Step where
  /-- Other settings are laid over them. -/
  | merge (top : Settings)
  /-- The rules in a list with commas are disabled. -/
  | disableList (list : String)
  /-- Some rules are disabled. -/
  | disable (ids : List String)

namespace Step

/-- The settings after a step. -/
def apply (settings : Settings) : Step → Settings
  | .merge top => settings.merge top
  | .disableList list => settings.disableList list
  | .disable ids => settings.disable ids

/-- The ids that a step disables: those of the settings on top, the trimmed pieces of a list, or
those that are given. -/
def ids : Step → List String
  | .merge top => top.disabled
  | .disableList list => (splitAt ',' list.toList).map fun piece => String.ofList (trim piece)
  | .disable ids => ids

/-- The tiers that a step names. -/
def tiers : Step → Std.ExtTreeMap String String
  | .merge top => top.tiers
  | .disableList _ => {}
  | .disable _ => {}

/-- Whether a step names no tier for an id, however the id is spelled. -/
def Silent (step : Step) (id : String) : Prop :=
  ∀ spelling ∈ step.tiers, sameId spelling id = false

/-- Whether a step names a tier for an id: under that spelling of the id which is the greatest byte
by byte. -/
def Names (step : Step) (id tier : String) : Prop :=
  ∃ spelling, step.tiers[spelling]? = some tier ∧ sameId spelling id = true ∧
    ∀ other ∈ step.tiers, sameId other id = true → other = spelling ∨ BytewiseLess other spelling

/-- The settings that a step lays on top. -/
def layer : Step → Settings
  | .merge top => top
  | .disableList list => .ofDisabled (idsOfList list)
  | .disable ids => .ofDisabled ids

/-- Every step lays settings on top. -/
theorem apply_eq_merge (settings : Settings) (step : Step) :
    step.apply settings = settings.merge step.layer := by
  cases step <;> rfl

private theorem tiers_layer (step : Step) : step.layer.tiers = step.tiers := by
  cases step <;> rfl

/-- A step lays on top what disables its ids; empty pieces of a list are no ids. -/
theorem disables_layer (step : Step) {id : String} (hid : sameId "" id = false) :
    step.layer.disables id = step.ids.any (sameId · id) := by
  cases step with
  | merge top => rfl
  | disable ids => rfl
  | disableList list =>
    change (idsOfList list).any (sameId · id) = _
    rw [idsOfList, ids, List.any_map, List.any_filter, List.any_map, List.any_map]
    congr 1
    funext piece
    change (!(trim piece).isEmpty && sameId (String.ofList (trim piece)) id) =
      sameId (String.ofList (trim piece)) id
    cases trim piece with
    | nil => exact hid.symm
    | cons c rest => rfl

private theorem named?_layer_eq_none_iff {step : Step} {id : String} :
    step.layer.named? id = none ↔ step.Silent id := by
  rw [named?_eq_none_iff, tiers_layer, Silent]

private theorem Names.named?_layer {step : Step} {id tier : String} (h : step.Names id tier) :
    step.layer.named? id = some tier := by
  obtain ⟨spelling, hspelling, hsame, hgreatest⟩ := h
  rw [← tiers_layer] at hspelling hgreatest
  exact named?_eq_some hspelling hsame hgreatest

/-- A step that spells an id names a tier for it: one of the spellings is the greatest. -/
theorem silent_or_exists_names (step : Step) (id : String) :
    step.Silent id ∨ ∃ tier, step.Names id tier := by
  cases h : step.layer.named? id with
  | none => exact .inl (named?_layer_eq_none_iff.mp h)
  | some tier =>
    obtain ⟨spelling, hspelling, hsame, hgreatest⟩ := exists_spelling_of_named? h
    rw [tiers_layer] at hspelling hgreatest
    exact .inr ⟨tier, spelling, hspelling, hsame, hgreatest⟩

end Step

/-! ### Runs of steps -/

/-- The settings that steps make of empty ones. -/
def afterSteps (steps : List Step) : Settings :=
  steps.foldl Step.apply {}

private theorem afterSteps_concat (steps : List Step) (step : Step) :
    afterSteps (steps ++ [step]) = (afterSteps steps).merge step.layer := by
  rw [afterSteps, List.foldl_append, List.foldl_cons, List.foldl_nil, Step.apply_eq_merge,
    afterSteps]

/-- Whether no disabled id is spelled twice and all ids of tiers are in lower case. -/
structure Folded (settings : Settings) : Prop where
  distinct : Distinct settings.disabled
  folded : ∀ id ∈ settings.tiers, foldId id = id

private theorem Folded.merge {base : Settings} (h : Folded base) (top : Settings) :
    Folded (base.merge top) :=
  ⟨distinct_merge h.distinct top, folded_merge h.folded top⟩

private theorem folded_afterSteps (steps : List Step) : Folded (afterSteps steps) := by
  induction steps using List.reverseRecOn with
  | nil => exact ⟨.nil, fun id hid => absurd hid Std.ExtTreeMap.not_mem_empty⟩
  | append_singleton steps step ih =>
    rw [afterSteps_concat]
    exact ih.merge step.layer

/-- Steps disable what one of them disables. -/
theorem disables_afterSteps (steps : List Step) (id : String) :
    (afterSteps steps).disables id = steps.any (·.layer.disables id) := by
  induction steps using List.reverseRecOn with
  | nil => rfl
  | append_singleton steps step ih =>
    rw [afterSteps_concat, disables_merge, ih, List.any_append, List.any_cons, List.any_nil,
      Bool.or_false]

/-- Folded settings name a tier for an id where they have it in lower case. -/
theorem Folded.named? {settings : Settings} (h : Folded settings) {id : String}
    (hid : foldId id = id) : settings.named? id = settings.tiers[id]? := by
  have hspelling : ∀ other ∈ settings.tiers, sameId other id = true → other = id := by
    intro other hother hsame
    rw [sameId_iff, h.folded other hother, hid] at hsame
    exact hsame
  cases hget : settings.tiers[id]? with
  | some tier =>
    exact named?_eq_some hget (sameId_self id) fun other hother hsame =>
      .inl (hspelling other hother hsame)
  | none =>
    rw [named?_eq_none_iff]
    intro other hother
    rw [Bool.eq_false_iff]
    intro hsame
    rw [hspelling other hother hsame] at hother
    have hsome := Std.ExtTreeMap.isSome_getElem?_iff_mem.mpr hother
    exact absurd hget (Option.isSome_iff_ne_none.mp hsome)

/-- Of the steps that name a tier for an id the last one counts. -/
theorem named?_afterSteps (steps : List Step) {id : String} (hid : foldId id = id) :
    (afterSteps steps).named? id = steps.reverse.findSome? (·.layer.named? id) := by
  rw [(folded_afterSteps steps).named? hid]
  induction steps using List.reverseRecOn with
  | nil => rfl
  | append_singleton steps step ih =>
    rw [afterSteps_concat, getElem?_tiers_merge _ _ hid, ih, List.reverse_append,
      List.reverse_singleton, List.singleton_append, List.findSome?_cons]
    cases step.layer.named? id <;> rfl

private theorem named?_afterSteps_of_silent {steps : List Step} {id : String} (hid : foldId id = id)
    (h : ∀ step ∈ steps, step.Silent id) : (afterSteps steps).named? id = none := by
  rw [named?_afterSteps steps hid, List.findSome?_eq_none_iff]
  intro step hstep
  exact Step.named?_layer_eq_none_iff.mpr (h step (List.mem_reverse.mp hstep))

private theorem named?_afterSteps_of_names {before after : List Step} {step : Step}
    {id tier : String} (hid : foldId id = id) (hafter : ∀ later ∈ after, later.Silent id)
    (hstep : step.Names id tier) :
    (afterSteps (before ++ step :: after)).named? id = some tier := by
  have hnone : after.reverse.findSome? (·.layer.named? id) = none := by
    rw [← named?_afterSteps after hid]
    exact named?_afterSteps_of_silent hid hafter
  rw [named?_afterSteps _ hid, List.reverse_append, List.reverse_cons, List.findSome?_append,
    List.findSome?_append, hnone, List.findSome?_singleton, hstep.named?_layer]
  rfl

/-! ### Rules after steps -/

private theorem sameId_empty_of_mem_catalogue {r : Rule} (h : r ∈ catalogue) :
    sameId "" r.entry.id = false := by
  have hall : ∀ id ∈ catalogue.map (·.entry.id), sameId "" id = false := by decide +kernel
  exact hall _ (List.mem_map_of_mem h)

/-- What is listed under settings. -/
theorem mem_entries_enabled_iff {settings : Settings} {e : Entry} :
    e ∈ entries (enabled settings) ↔
      ∃ r ∈ catalogue, settings.disables r.entry.id = false ∧ e = (listed settings r).entry := by
  rw [entries, enabled_eq_map_listed, List.map_map, List.mem_map]
  constructor
  · rintro ⟨r, hr, rfl⟩
    obtain ⟨hr, henabled⟩ := List.mem_filter.mp hr
    exact ⟨r, hr, by simpa using henabled, rfl⟩
  · rintro ⟨r, hr, henabled, rfl⟩
    exact ⟨r, List.mem_filter.mpr ⟨hr, by simpa using henabled⟩, rfl⟩

/-- A rule is not listed after steps when one of them disables it. -/
theorem not_listed_afterSteps_iff (steps : List Step) {r : Rule} (hr : r ∈ catalogue) :
    (∀ e ∈ entries (enabled (afterSteps steps)), e.id ≠ r.entry.id) ↔
      ∃ step ∈ steps, ∃ id ∈ step.ids, sameId id r.entry.id = true := by
  have hempty := sameId_empty_of_mem_catalogue hr
  have hdisables : (afterSteps steps).disables r.entry.id = true ↔
      ∃ step ∈ steps, ∃ id ∈ step.ids, sameId id r.entry.id = true := by
    simp only [disables_afterSteps, Step.disables_layer _ hempty, List.any_eq_true]
  rw [← hdisables]
  constructor
  · intro h
    rw [← Bool.not_eq_false]
    intro henabled
    exact h _ (mem_entries_enabled_iff.mpr ⟨r, hr, henabled, rfl⟩) rfl
  · rintro h e he hid
    obtain ⟨q, hq, henabled, rfl⟩ := mem_entries_enabled_iff.mp he
    obtain rfl : q = r := eq_of_id_eq hq hr hid
    rw [h] at henabled
    exact absurd henabled (by decide)

/-- A rule is listed in the tier that settings name for it. -/
theorem severity_of_mem_entries {settings : Settings} {r : Rule} (hr : r ∈ catalogue) {e : Entry}
    (he : e ∈ entries (enabled settings)) (hid : e.id = r.entry.id) :
    e.severity = ((settings.named? r.entry.id).bind Severity.ofSetting?).getD r.entry.severity := by
  obtain ⟨q, hq, -, rfl⟩ := mem_entries_enabled_iff.mp he
  obtain rfl : q = r := eq_of_id_eq hq hr hid
  rfl

/-- Settings in layers have a closed form. After any steps no disabled id is spelled twice and the
ids of tiers are in lower case. A rule is listed unless one of the steps disables it in some
spelling. It is listed in the tier that the last step to name a tier for it names, if this is the
name of a tier; and else, or when no step names one, in its own. -/
theorem rules_after_steps (steps : List Step) :
    (Distinct (afterSteps steps).disabled ∧ ∀ id ∈ (afterSteps steps).tiers, foldId id = id) ∧
    ∀ r ∈ catalogue,
      ((∀ e ∈ entries (enabled (afterSteps steps)), e.id ≠ r.entry.id) ↔
        ∃ step ∈ steps, ∃ id ∈ step.ids, sameId id r.entry.id = true) ∧
      ∀ e ∈ entries (enabled (afterSteps steps)), e.id = r.entry.id →
        ((∀ step ∈ steps, step.Silent r.entry.id) → e.severity = r.entry.severity) ∧
        ∀ before step after tier, steps = before ++ step :: after →
          (∀ later ∈ after, later.Silent r.entry.id) → step.Names r.entry.id tier →
          e.severity = (Severity.ofSetting? tier).getD r.entry.severity := by
  refine ⟨⟨(folded_afterSteps steps).distinct, (folded_afterSteps steps).folded⟩, ?_⟩
  intro r hr
  refine ⟨not_listed_afterSteps_iff steps hr, ?_⟩
  intro e he hid
  have hfolded := foldId_of_mem_catalogue hr
  have hseverity := severity_of_mem_entries hr he hid
  constructor
  · intro hsilent
    rw [hseverity, named?_afterSteps_of_silent hfolded hsilent, Option.bind_none, Option.getD_none]
  · rintro before step after tier rfl hafter hstep
    rw [hseverity, named?_afterSteps_of_names hfolded hafter hstep, Option.bind_some]

/-- A layer with two spellings of an id over a layer with a third one, and a list after them. -/
theorem missingLimit_after_steps :
    let noTiers : Std.ExtTreeMap String String := {}
    let lower := Step.merge { tiers := noTiers.insert "missing-limit" "info" }
    let upper := Step.merge
      { tiers := (noTiers.insert "Missing-Limit" "error").insert "MISSING-limit" "info" }
    let list := Step.disableList " Select-Star ,, large-join"
    (list.Silent "missing-limit" ∧ upper.Names "missing-limit" "error") ∧
      ∃ e ∈ entries (enabled (afterSteps ([lower] ++ upper :: [list]))),
        e.id = "missing-limit" ∧ e.severity = .critical := by
  intro noTiers lower upper list
  have hmem : missingLimit ∈ catalogue := List.mem_of_getElem (i := 5) (h := by decide) rfl
  have hlist : list.Silent "missing-limit" :=
    fun spelling h => absurd h Std.ExtTreeMap.not_mem_empty
  have hupper : upper.Names "missing-limit" "error" := by
    refine ⟨"Missing-Limit", ?_, by decide, ?_⟩
    · change ((noTiers.insert "Missing-Limit" "error").insert "MISSING-limit"
        "info")["Missing-Limit"]? = _
      rw [Std.ExtTreeMap.getElem?_insert, if_neg (by decide), Std.ExtTreeMap.getElem?_insert_self]
    · intro other hother _
      rcases Std.ExtTreeMap.mem_insert.mp hother with heq | hother
      · rw [← Std.compare_eq_iff_eq.mp heq]
        exact .inr (bytewiseLess_of_lt (by decide) (by decide))
      · rcases Std.ExtTreeMap.mem_insert.mp hother with heq | hother
        · exact .inl (Std.compare_eq_iff_eq.mp heq).symm
        · exact absurd hother Std.ExtTreeMap.not_mem_empty
  refine ⟨⟨hlist, hupper⟩, ?_⟩
  obtain ⟨hlisted, htier⟩ := (rules_after_steps ([lower] ++ upper :: [list])).2 missingLimit hmem
  have hnone : ¬ ∃ step ∈ [lower] ++ upper :: [list], ∃ id ∈ step.ids,
      sameId id missingLimit.entry.id = true := by decide
  rw [← hlisted] at hnone
  push Not at hnone
  obtain ⟨e, he, hid⟩ := hnone
  have hsilent : ∀ later ∈ [list], later.Silent missingLimit.entry.id :=
    fun later hlater => List.mem_singleton.mp hlater ▸ hlist
  exact ⟨e, he, hid, ((htier e he hid).2 _ _ _ _ rfl hsilent hupper).trans (by decide)⟩

end SqlReview.Settings

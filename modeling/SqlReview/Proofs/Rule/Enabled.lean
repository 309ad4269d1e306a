import SqlReview.Proofs.Rule.Evaluate
import SqlReview.Proofs.Settings.Merge

/-!
# Rules under settings

Settings are folded before rules are looked up in them, and the ids of rules are folded already. So
a rule is enabled unless some spelling of its id is disabled, and it is listed in the tier under the
greatest spelling of its id. What settings say of one rule makes no difference to any other.
-/

namespace SqlReview.Rule

/-! ### The enabled rules -/

/-- Ids of rules are in lower case. -/
theorem foldId_of_mem_catalogue {r : Rule} (h : r ∈ catalogue) :
    foldId r.entry.id = r.entry.id := by
  have hall : ∀ id ∈ catalogue.map (·.entry.id), foldId id = id := by decide +kernel
  exact hall _ (List.mem_map_of_mem h)

/-- The tier in which settings list a rule. -/
def listedSeverity (settings : Settings) (e : Entry) : Severity :=
  ((settings.named? e.id).bind Severity.ofSetting?).getD e.severity

/-- A rule in the tier in which settings list it. -/
def listed (settings : Settings) (r : Rule) : Rule :=
  { r with entry := { r.entry with severity := listedSeverity settings r.entry } }

private theorem disables_folded (settings : Settings) (id : String) :
    (Settings.merge {} settings).disables id = settings.disables id := by
  rw [Settings.disables_merge]
  rfl

/-- Folded settings name under a folded id the tier that the settings name for it. -/
theorem getElem?_tiers_folded (settings : Settings) {id : String} (hid : foldId id = id) :
    (Settings.merge {} settings).tiers[id]? = settings.named? id := by
  rw [Settings.getElem?_tiers_merge {} settings hid]
  exact Option.or_none

/-- The enabled rules are those of the catalogue that are not disabled, each in its tier. -/
theorem enabled_eq_map_listed (settings : Settings) :
    enabled settings =
      (catalogue.filter fun r => !settings.disables r.entry.id).map (listed settings) := by
  simp only [enabled, disables_folded]
  apply List.map_congr_left
  intro r hr
  have hid := foldId_of_mem_catalogue (List.mem_filter.mp hr).1
  rw [under, listed, effectiveSeverity, getElem?_tiers_folded settings hid, listedSeverity]

/-! ### Disabling further rules -/

private theorem disables_disable (settings : Settings) (ids : List String) (id : String) :
    (settings.disable ids).disables id = (settings.disables id || ids.any (sameId · id)) :=
  Settings.disables_merge settings (.ofDisabled ids) id

private theorem listed_disable (settings : Settings) (ids : List String) :
    listed (settings.disable ids) = listed settings := rfl

/-- With further rules disabled, the enabled rules are the others among those enabled before. -/
theorem enabled_disable (settings : Settings) (ids : List String) :
    enabled (settings.disable ids) =
      (enabled settings).filter fun r => !ids.any (sameId · r.entry.id) := by
  rw [enabled_eq_map_listed, enabled_eq_map_listed, listed_disable, List.filter_map,
    List.filter_filter]
  congr 1
  apply List.filter_congr
  intro r _
  rw [disables_disable, Bool.not_or, Bool.and_comm]
  rfl

/-! ### Moving one rule to another tier -/

/-- Settings that differ in what they say of one rule leave the same others enabled in the same
tiers. -/
theorem filter_enabled_congr {r : Rule} (hr : r ∈ catalogue) {a b : Settings}
    (hdisabled : a.disabled = b.disabled)
    (htiers : ∀ id, sameId id r.entry.id = false → a.tiers[id]? = b.tiers[id]?) :
    (enabled a).filter (·.entry.id ∉ [r.entry.id]) =
      (enabled b).filter (·.entry.id ∉ [r.entry.id]) := by
  have hdisables : a.disables = b.disables := by
    funext id
    rw [Settings.disables, hdisabled, Settings.disables]
  rw [enabled_eq_map_listed, enabled_eq_map_listed, List.filter_map, List.filter_map, hdisables]
  apply List.map_congr_left
  intro q hq
  obtain ⟨hq, hne⟩ := List.mem_filter.mp hq
  have hne : q.entry.id ∉ [r.entry.id] := of_decide_eq_true hne
  have hqid := foldId_of_mem_catalogue (List.mem_filter.mp hq).1
  have hnamed : a.named? q.entry.id = b.named? q.entry.id := by
    apply Settings.named?_congr
    intro spelling hspelling
    apply htiers
    rw [sameId_congr hspelling, Bool.eq_false_iff]
    intro hsame
    rw [sameId_iff, hqid, foldId_of_mem_catalogue hr] at hsame
    exact hne (List.mem_singleton.mpr hsame)
  rw [listed, listed, listedSeverity, hnamed, listedSeverity]

/-- Rules are independent of each other. Disabling rules takes their recommendations out of a report
and leaves the rest of it as it stands; and settings that differ only in the tiers that they name
for one rule give reports that differ only in what this rule recommends. -/
theorem reports_of_other_rules_unchanged :
    (∀ (settings : Settings) (ids : List String) (s : List Char) (metrics : Query.Metrics),
      evaluate (enabled (settings.disable ids)) (Subject.of s metrics) =
        (evaluate (enabled settings) (Subject.of s metrics)).filter
          fun x => !ids.any (sameId · x.id)) ∧
    ∀ r ∈ catalogue, ∀ a b : Settings, a.disabled = b.disabled →
      (∀ id, sameId id r.entry.id = false → a.tiers[id]? = b.tiers[id]?) →
      ∀ (s : List Char) (metrics : Query.Metrics),
        without [r.entry.id] (evaluate (enabled a) (Subject.of s metrics)) =
          without [r.entry.id] (evaluate (enabled b) (Subject.of s metrics)) := by
  constructor
  · intro settings ids s metrics
    rw [enabled_disable]
    exact (filter_evaluate_eq_evaluate_filter (fun id => !ids.any (sameId · id)) _ _).symm
  · intro r hr a b hdisabled htiers s metrics
    have hreport := filter_evaluate_eq_evaluate_filter fun id => decide (id ∉ [r.entry.id])
    rw [without, without, hreport, hreport, filter_enabled_congr hr hdisabled htiers]

/-- Two spellings of one id that name its tier differently, against settings that name none. -/
theorem reports_with_spelled_severity :
    let settings : Settings :=
      { tiers := (({} : Std.ExtTreeMap String String).insert "Select-Star" "info").insert
          "SELECT-STAR" "warning" }
    (selectStar ∈ catalogue ∧ settings.disabled = ({} : Settings).disabled ∧
      ∀ id, sameId id selectStar.entry.id = false →
        settings.tiers[id]? = ({} : Settings).tiers[id]?) ∧
    ∀ (s : List Char) (metrics : Query.Metrics),
      without ["select-star"] (evaluate (enabled settings) (Subject.of s metrics)) =
        without ["select-star"] (evaluate (enabled {}) (Subject.of s metrics)) := by
  intro settings
  have hmem : selectStar ∈ catalogue := List.mem_cons_self ..
  have htiers : ∀ id, sameId id selectStar.entry.id = false →
      settings.tiers[id]? = ({} : Settings).tiers[id]? := by
    intro id hid
    have hne : ∀ spelling, sameId spelling "select-star" = true → spelling ≠ id := by
      rintro spelling hspelling rfl
      exact Bool.false_ne_true (hid.symm.trans hspelling)
    have hfirst := hne "Select-Star" (by decide)
    have hsecond := hne "SELECT-STAR" (by decide)
    change ((({} : Std.ExtTreeMap String String).insert "Select-Star" "info").insert
      "SELECT-STAR" "warning")[id]? = _
    rw [Std.ExtTreeMap.getElem?_insert, if_neg (mt Std.compare_eq_iff_eq.mp hsecond),
      Std.ExtTreeMap.getElem?_insert, if_neg (mt Std.compare_eq_iff_eq.mp hfirst)]
  exact ⟨⟨hmem, rfl, htiers⟩,
    reports_of_other_rules_unchanged.2 selectStar hmem settings {} rfl htiers⟩

end SqlReview.Rule

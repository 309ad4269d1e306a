import SqlReview.Proofs.Settings.Merge

/-!
# Laws of layers

Layers of settings can be put together in any grouping, and to lay the uppermost one on a second
time changes nothing. Of the entries of a layer only their order byte by byte counts, not the one in
which they are enumerated. What is disabled below stays in front, spelled as it was. A list of ids
may be given in two parts.
-/

namespace SqlReview.Settings

open SqlReview.Text

attribute [ext] Settings

/-! ### Disabled ids -/

private theorem insertId_eq_self {ids : List String} {id : String}
    (h : ids.any (sameId · id) = true) : insertId ids id = ids :=
  if_pos h

/-- Ids to which others were added are added as they and then the others would be. -/
theorem foldl_insertId_foldl (base ids more : List String) :
    (more.foldl insertId ids).foldl insertId base =
      more.foldl insertId (ids.foldl insertId base) := by
  induction more generalizing ids with
  | nil => rfl
  | cons new more ih =>
    have hnew : (insertId ids new).foldl insertId base =
        insertId (ids.foldl insertId base) new := by
      by_cases h : ids.any (sameId · new) = true
      · have hbase : (ids.foldl insertId base).any (sameId · new) = true := by
          rw [any_foldl_insertId, h, Bool.or_true]
        rw [insertId_eq_self h, insertId_eq_self hbase]
      · rw [insertId, if_neg h, List.foldl_append]
        rfl
    rw [List.foldl_cons, List.foldl_cons, ih, hnew]

private theorem foldl_insertId_eq_self {ids more : List String}
    (h : ∀ id ∈ more, ids.any (sameId · id) = true) : more.foldl insertId ids = ids := by
  induction more with
  | nil => rfl
  | cons new more ih =>
    rw [List.foldl_cons, insertId_eq_self (h new (List.mem_cons_self ..))]
    exact ih fun id hid => h id (List.mem_cons_of_mem new hid)

private theorem prefix_foldl_insertId (ids more : List String) :
    ids <+: more.foldl insertId ids := by
  induction more generalizing ids with
  | nil => exact List.prefix_refl ids
  | cons new more ih =>
    have hnew : ids <+: insertId ids new := by
      rw [insertId]
      split
      · exact List.prefix_refl ids
      · exact List.prefix_append ids [new]
    exact hnew.trans (ih (insertId ids new))

/-! ### Tiers -/

/-- The tier under any spelling of an id in the settings under others. -/
theorem getElem?_tiers_merge_eq (base top : Settings) (id : String) :
    (base.merge top).tiers[id]? =
      if foldId id = id then (top.named? id).or base.tiers[id]? else base.tiers[id]? := by
  split
  · next hid => exact getElem?_tiers_merge base top hid
  · next hid => exact getElem?_tiers_merge_of_ne base top hid

/-- Two layers name for an id what the upper one names, and else what the lower one does. What the
upper one names is put under the id in lower case, and this is the greatest spelling. -/
theorem named?_merge (base top : Settings) {id : String} (hid : foldId id = id) :
    (base.merge top).named? id = (top.named? id).or (base.named? id) := by
  cases htop : top.named? id with
  | some tier =>
    have htier : (base.merge top).tiers[id]? = some tier := by
      rw [getElem?_tiers_merge base top hid, htop]
      rfl
    apply named?_eq_some htier (sameId_self id)
    intro other _ hother
    exact eq_or_bytewiseLess_of_folded hid hother
  | none =>
    apply named?_congr
    intro spelling hspelling
    rw [getElem?_tiers_merge_eq]
    split
    · next hfold =>
      obtain rfl : spelling = id := by
        rw [← hfold, sameId_iff.mp hspelling, hid]
      rw [htop]
      rfl
    · rfl

/-! ### Entries in their order -/

/-- The order of entries byte by byte: that of their ids, and for one id that of their tiers. -/
def entryOrder : String × String → String × String → Ordering :=
  compareLex (compareOn fun entry => idBytes entry.1) (compareOn fun entry => idBytes entry.2)

/-- The order of entries is total and transitive. -/
instance : Std.TransCmp entryOrder :=
  inferInstanceAs (Std.TransCmp (compareLex _ _))

/-- Entries in their order. -/
def sortEntries (entries : List (String × String)) : List (String × String) :=
  entries.mergeSort fun a b => (entryOrder a b).isLE

/-- Tiers with the entries of a layer laid over them, each in its turn. -/
def layEntries (tiers : Std.ExtTreeMap String String) (entries : List (String × String)) :
    Std.ExtTreeMap String String :=
  (sortEntries entries).foldl (fun tiers entry => tiers.insert (foldId entry.1) entry.2) tiers

private theorem lex_of_compare {a b : List UInt8} (h : compare a b = .lt) :
    List.Lex (· < ·) a b := by
  induction a generalizing b with
  | nil =>
    cases b with
    | nil => exact absurd h (by simp)
    | cons n b => exact .nil
  | cons m a ih =>
    cases b with
    | nil => exact absurd h (by simp)
    | cons n b =>
      rw [List.compare_cons_cons, Ordering.then_eq_lt] at h
      rcases h with hlt | ⟨heq, hlt⟩
      · exact .rel (Std.compare_eq_lt.mp hlt)
      · obtain rfl := Std.compare_eq_iff_eq.mp heq
        exact .cons (ih hlt)

private theorem idBytes_injective {a b : String} (h : idBytes a = idBytes b) : a = b :=
  String.toByteArray_inj.mp (ByteArray.ext (Array.toList_inj.mp h))

/-- Sorted entries stand in the order of their ids byte by byte. -/
theorem pairwise_sortEntries (entries : List (String × String)) :
    (sortEntries entries).Pairwise fun a b => a.1 = b.1 ∨ BytewiseLess a.1 b.1 := by
  have htotal : ∀ a b, ((entryOrder a b).isLE || (entryOrder b a).isLE) = true := by
    intro a b
    have hswap : entryOrder b a = (entryOrder a b).swap := Std.OrientedCmp.eq_swap
    rw [hswap]
    cases entryOrder a b <;> rfl
  have hsorted : (sortEntries entries).Pairwise fun a b => (entryOrder a b).isLE = true :=
    List.pairwise_mergeSort (fun _ _ _ => Std.TransCmp.isLE_trans) htotal entries
  apply hsorted.imp
  intro a b hle
  change ((compare (idBytes a.1) (idBytes b.1)).then _).isLE = true at hle
  cases hids : compare (idBytes a.1) (idBytes b.1) with
  | lt => exact .inr (lex_of_compare hids)
  | eq => exact .inl (idBytes_injective (Std.compare_eq_iff_eq.mp hids))
  | gt =>
    rw [hids] at hle
    exact absurd hle (by simp)

/-- However the entries of a layer are enumerated, the last of them in their order to spell an id
names the tier that the layer names for it. -/
theorem find?_sortEntries (settings : Settings) {entries : List (String × String)}
    (h : entries.Perm settings.tiers.toList) (id : String) :
    ((sortEntries entries).reverse.find? fun entry => sameId entry.1 id).map (·.2) =
      settings.named? id := by
  have hmem : ∀ spelling tier, (spelling, tier) ∈ sortEntries entries ↔
      settings.tiers[spelling]? = some tier := by
    intro spelling tier
    rw [← Std.ExtTreeMap.mem_toList_iff_getElem?_eq_some, ← h.mem_iff]
    exact (List.mergeSort_perm entries _).mem_iff
  cases hfind : (sortEntries entries).reverse.find? fun entry => sameId entry.1 id with
  | none =>
    symm
    rw [List.find?_eq_none] at hfind
    apply named?_eq_none_iff.mpr
    intro other hother
    obtain ⟨tier, htier⟩ := mem_tiers_iff.mp hother
    have hnone := hfind (other, tier) (List.mem_reverse.mpr ((hmem other tier).mpr htier))
    simpa using hnone
  | some last =>
    obtain ⟨hlast, hsame, hgreatest⟩ :=
      greatest_of_find?_reverse ((pairwise_sortEntries entries).imp fun h => fun _ => h) hfind
    symm
    apply named?_eq_some ((hmem last.1 last.2).mp hlast) hsame
    intro other hother hid
    obtain ⟨tier, htier⟩ := mem_tiers_iff.mp hother
    exact hgreatest (other, tier) ((hmem other tier).mpr htier) hid

/-- Tiers are laid over others entry by entry, however the entries are enumerated. -/
theorem tiers_merge_eq_layEntries (base top : Settings) {entries : List (String × String)}
    (h : entries.Perm top.tiers.toList) :
    (base.merge top).tiers = layEntries base.tiers entries := by
  apply Std.ExtTreeMap.ext_getElem?
  intro id
  rw [getElem?_tiers_merge_eq, layEntries]
  split
  · next hid => rw [getElem?_foldl_insert _ _ hid, find?_sortEntries top h]
  · next hid => rw [getElem?_foldl_insert_of_ne _ _ hid]

/-! ### Layers over layers -/

/-- Of three layers the two lower ones or the two upper ones can be put together first. -/
theorem merge_assoc (a b c : Settings) : (a.merge b).merge c = a.merge (b.merge c) := by
  ext1
  · exact (foldl_insertId_foldl a.disabled b.disabled c.disabled).symm
  · apply Std.ExtTreeMap.ext_getElem?
    intro id
    by_cases hid : foldId id = id
    · rw [getElem?_tiers_merge _ _ hid, getElem?_tiers_merge _ _ hid, getElem?_tiers_merge _ _ hid,
        named?_merge _ _ hid, Option.or_assoc]
    · simp only [getElem?_tiers_merge_of_ne _ _ hid]

/-- A layer that lies on top already changes nothing. -/
theorem merge_merge_self (a b : Settings) : (a.merge b).merge b = a.merge b := by
  ext1
  · apply foldl_insertId_eq_self
    intro id hid
    show (b.disabled.foldl insertId a.disabled).any (sameId · id) = true
    have hspelled : b.disabled.any (sameId · id) = true :=
      List.any_eq_true.mpr ⟨id, hid, sameId_self id⟩
    rw [any_foldl_insertId, hspelled, Bool.or_true]
  · apply Std.ExtTreeMap.ext_getElem?
    intro id
    by_cases hid : foldId id = id
    · rw [getElem?_tiers_merge _ _ hid, getElem?_tiers_merge _ _ hid, ← Option.or_assoc,
        Option.or_self]
    · exact getElem?_tiers_merge_of_ne _ _ hid

/-- The ids in two lists with a comma between them are those of the one and those of the other. -/
theorem idsOfList_append (first second : String) :
    idsOfList (first ++ "," ++ second) = idsOfList first ++ idsOfList second := by
  have hchars : (first ++ "," ++ second).toList = first.toList ++ ',' :: second.toList := by
    rw [String.toList_append, String.toList_append, List.append_assoc]
    rfl
  rw [idsOfList, hchars, splitAt_append, List.map_append, List.filter_append, List.map_append]
  rfl

/-- A list of ids can be given in two parts. -/
theorem disableList_append (settings : Settings) (first second : String) :
    settings.disableList (first ++ "," ++ second) =
      (settings.disableList first).disableList second := by
  ext1
  · show (idsOfList (first ++ "," ++ second)).foldl insertId settings.disabled = _
    rw [idsOfList_append, List.foldl_append]
    rfl
  · rfl

/-- Laying settings over others obeys laws. Of three layers the two lower ones or the two upper ones
can be put together first. A layer that lies on top already changes nothing. The entries of the
upper layer may be enumerated in any order. What is disabled below stays in front, spelled as it
was. A list of ids with commas can be given in two parts. -/
theorem merge_laws :
    (∀ a b c : Settings, (a.merge b).merge c = a.merge (b.merge c)) ∧
    (∀ a b : Settings, (a.merge b).merge b = a.merge b) ∧
    (∀ (a b : Settings) (entries : List (String × String)), entries.Perm b.tiers.toList →
      (a.merge b).tiers = layEntries a.tiers entries) ∧
    (∀ a b : Settings, a.disabled <+: (a.merge b).disabled) ∧
    ∀ (settings : Settings) (first second : String),
      settings.disableList (first ++ "," ++ second) =
        (settings.disableList first).disableList second := by
  refine ⟨merge_assoc, merge_merge_self, ?_, ?_, disableList_append⟩
  · intro a b entries h
    exact tiers_merge_eq_layEntries a b h
  · intro a b
    exact prefix_foldl_insertId a.disabled b.disabled

/-- Two spellings of an id, the greater one of them first. -/
theorem merge_of_spellings :
    let noTiers : Std.ExtTreeMap String String := {}
    let top : Settings :=
      { tiers := (noTiers.insert "Select-Star" "info").insert "select-star" "warning" }
    let entries := [("select-star", "warning"), ("Select-Star", "info")]
    entries.Perm top.tiers.toList ∧
      (Settings.merge {} top).tiers = layEntries {} entries ∧
      sortEntries entries = [("Select-Star", "info"), ("select-star", "warning")] := by
  intro noTiers top entries
  have hperm : entries.Perm top.tiers.toList := by
    decide
  have hgreater : (entryOrder ("select-star", "warning") ("Select-Star", "info")).isLE = false := by
    decide
  have hsorted : sortEntries entries = [("Select-Star", "info"), ("select-star", "warning")] := by
    simp [sortEntries, entries, List.mergeSort, hgreater]
  exact ⟨hperm, merge_laws.2.2.1 {} top entries hperm, hsorted⟩

end SqlReview.Settings

import SqlReview.Proofs.Text.Folding
import SqlReview.Settings.Basic

/-!
# One layer of settings over another

Laying settings over others adds what they disable, and each tier that they name replaces the one
below it. An id may be spelled in several ways in one layer; then the greatest spelling counts, be
it compared by characters or by bytes.
-/

namespace SqlReview

open SqlReview.Text

/-! ### Spellings of an id -/

/-- Two ids are the same when they are once folded. -/
theorem sameId_iff {a b : String} : sameId a b = true ↔ foldId a = foldId b := by
  rw [sameId, sameText_iff, foldId, foldId, String.ofList_inj]

/-- An id is the same as itself. -/
theorem sameId_self (id : String) : sameId id id = true :=
  sameId_iff.mpr rfl

/-- Spellings of one id are compared alike with any other. -/
theorem sameId_congr {a b : String} (h : sameId a b = true) (c : String) :
    sameId a c = sameId b c := by
  rw [Bool.eq_iff_iff, sameId_iff, sameId_iff, sameId_iff.mp h]

private theorem sameId_comm (a b : String) : sameId a b = sameId b a := by
  rw [Bool.eq_iff_iff, sameId_iff, sameId_iff, eq_comm]

/-- Folding an id twice is folding it once. -/
theorem foldId_foldId (id : String) : foldId (foldId id) = foldId id := by
  rw [foldId, foldId, String.toList_ofList, lowerAscii, lowerAscii, List.map_map]
  exact congrArg String.ofList (List.map_congr_left fun c _ => toLower_toLower c)

/-! ### The order of spellings -/

/-- The bytes of an id in UTF-8. -/
def idBytes (id : String) : List UInt8 :=
  id.toUTF8.data.toList

/-- Whether an id comes before another one, byte by byte. -/
def BytewiseLess (a b : String) : Prop :=
  List.Lex (· < ·) (idBytes a) (idBytes b)

private theorem idBytes_eq_flatMap (id : String) :
    idBytes id = id.toList.flatMap String.utf8EncodeChar := by
  rw [idBytes, String.toUTF8, ← String.utf8Encode_toList, List.utf8Encode,
    List.toList_data_toByteArray]

private theorem BytewiseLess.asymm {a b : String} (h : BytewiseLess a b) : ¬ BytewiseLess b a :=
  List.lt_asymm h

private theorem utf8EncodeChar_of_sameLetter {c d : Char} (h : sameLetter c d = true)
    (hlt : c < d) : ∃ m n : UInt8, m < n ∧
      String.utf8EncodeChar c = [m] ∧ String.utf8EncodeChar d = [n] := by
  have hcapital : ∀ u ∈ capitals, u < u.toLower ∧ u.val.toUInt8 < u.toLower.val.toUInt8 ∧
      String.utf8EncodeChar u = [u.val.toUInt8] ∧
      String.utf8EncodeChar u.toLower = [u.toLower.val.toUInt8] := by decide
  have hinjective : ∀ u ∈ capitals, ∀ v ∈ capitals, u.toLower = v.toLower → u = v := by decide
  have hsame : c.toLower = d.toLower := by simpa [sameLetter] using h
  have hne : c ≠ d := Char.ne_of_lt hlt
  by_cases hc : c.toLower = c
  · have hd : d ∈ capitals :=
      mem_capitals_of_toLower_ne fun hd => hne (hc.symm.trans (hsame.trans hd))
    rw [← hc, hsame] at hlt
    exact absurd hlt (Char.lt_asymm (hcapital d hd).1)
  · have hc := mem_capitals_of_toLower_ne hc
    have hd : d.toLower = d := Decidable.byContradiction fun hd =>
      hne (hinjective c hc d (mem_capitals_of_toLower_ne hd) hsame)
    have hbytes := (hcapital c hc).2
    rw [hsame, hd] at hbytes
    exact ⟨_, _, hbytes⟩

private theorem lex_append (a : List UInt8) {b c : List UInt8} (h : List.Lex (· < ·) b c) :
    List.Lex (· < ·) (a ++ b) (a ++ c) := by
  induction a with
  | nil => exact h
  | cons m a ih => exact .cons ih

private theorem lex_flatMap {s t : List Char} (h : sameText s t = true)
    (hlt : List.Lex (· < ·) s t) :
    List.Lex (· < ·) (s.flatMap String.utf8EncodeChar) (t.flatMap String.utf8EncodeChar) := by
  rw [sameText_iff, lowerAscii, lowerAscii] at h
  induction hlt with
  | nil => exact absurd h (by simp)
  | cons _ ih => exact lex_append _ (ih (List.cons.inj h).2)
  | rel hlt =>
    have hsame := (List.cons.inj h).1
    obtain ⟨m, n, hmn, hm, hn⟩ := utf8EncodeChar_of_sameLetter (by simp [sameLetter, hsame]) hlt
    rw [List.flatMap_cons, List.flatMap_cons, hm, hn]
    exact .rel hmn

/-- Spellings of one id stand in the order of their bytes. -/
theorem bytewiseLess_of_lt {a b : String} (h : sameId a b = true) (hlt : a < b) :
    BytewiseLess a b := by
  rw [BytewiseLess, idBytes_eq_flatMap, idBytes_eq_flatMap]
  exact lex_flatMap h hlt

private theorem eq_or_lex_lowerAscii (s : List Char) :
    s = lowerAscii s ∨ List.Lex (· < ·) s (lowerAscii s) := by
  have hcapital : ∀ u ∈ capitals, u < u.toLower := by decide
  induction s with
  | nil => exact .inl rfl
  | cons c s ih =>
    change c :: s = c.toLower :: lowerAscii s ∨
      List.Lex (· < ·) (c :: s) (c.toLower :: lowerAscii s)
    by_cases hc : c.toLower = c
    · rw [hc]
      exact ih.imp (congrArg (c :: ·)) .cons
    · exact .inr (.rel (hcapital c (mem_capitals_of_toLower_ne hc)))

/-- Of the spellings of an id the one in lower case is the greatest. -/
theorem eq_or_bytewiseLess_of_folded {spelling id : String} (hid : foldId id = id)
    (h : sameId spelling id = true) : spelling = id ∨ BytewiseLess spelling id := by
  have hfold : foldId spelling = id := (sameId_iff.mp h).trans hid
  have hchars : lowerAscii spelling.toList = id.toList := by
    rw [← hfold, foldId, String.toList_ofList]
  rcases eq_or_lex_lowerAscii spelling.toList with heq | hlex
  · left
    apply String.toList_injective
    rw [heq, hchars]
  · right
    apply bytewiseLess_of_lt h
    rw [hchars] at hlex
    exact hlex

namespace Settings

/-! ### Disabled ids -/

/-- Whether no id of a list is spelled twice. -/
def Distinct (ids : List String) : Prop :=
  ids.Pairwise fun a b => sameId a b = false

/-- A list with an id added has all spellings of its ids and of the new one. -/
theorem any_insertId (ids : List String) (new id : String) :
    (insertId ids new).any (sameId · id) = (ids.any (sameId · id) || sameId new id) := by
  rw [insertId]
  split
  · next h =>
    obtain ⟨old, hold, hsame⟩ := List.any_eq_true.mp h
    cases hnew : sameId new id with
    | false => rw [Bool.or_false]
    | true =>
      rw [Bool.or_true, List.any_eq_true]
      exact ⟨old, hold, (sameId_congr hsame id).trans hnew⟩
  · rw [List.any_append, List.any_cons, List.any_nil, Bool.or_false]

/-- A list with several ids added has the spellings of its ids and of the added ones. -/
theorem any_foldl_insertId (base ids : List String) (id : String) :
    (ids.foldl insertId base).any (sameId · id) =
      (base.any (sameId · id) || ids.any (sameId · id)) := by
  induction ids generalizing base with
  | nil => rw [List.foldl_nil, List.any_nil, Bool.or_false]
  | cons new ids ih =>
    rw [List.foldl_cons, ih, any_insertId, List.any_cons, Bool.or_assoc]

/-- An id is disabled when either layer disables it. -/
theorem disables_merge (base top : Settings) (id : String) :
    (base.merge top).disables id = (base.disables id || top.disables id) :=
  any_foldl_insertId base.disabled top.disabled id

private theorem distinct_insertId {ids : List String} (h : Distinct ids) (new : String) :
    Distinct (insertId ids new) := by
  rw [insertId]
  split
  · exact h
  · next hnew =>
    apply List.pairwise_append.mpr
    refine ⟨h, List.pairwise_singleton .., ?_⟩
    intro old hold id hid
    obtain rfl := List.mem_singleton.mp hid
    exact Bool.eq_false_iff.mpr fun hsame => hnew (List.any_eq_true.mpr ⟨old, hold, hsame⟩)

/-- Laying settings over others spells no disabled id twice. -/
theorem distinct_merge {base : Settings} (h : Distinct base.disabled) (top : Settings) :
    Distinct (base.merge top).disabled := by
  change Distinct (top.disabled.foldl insertId base.disabled)
  generalize base.disabled = ids at h
  induction top.disabled generalizing ids with
  | nil => exact h
  | cons new news ih => exact ih _ (distinct_insertId h new)

/-! ### Tiers -/

/-- The tier that one layer names for an id: the one under the greatest spelling of the id. -/
def named? (settings : Settings) (id : String) : Option String :=
  (settings.tiers.toList.reverse.find? fun entry => sameId entry.1 id).map (·.2)

private theorem pairwise_tiers (settings : Settings) :
    settings.tiers.toList.Pairwise fun a b => a.1 < b.1 := by
  apply settings.tiers.ordered_keys_toList.imp
  intro a b h
  exact compareOfLessAndEq_eq_lt.mp h

/-- A layer spells an id where it has a tier under that spelling. -/
theorem mem_tiers_iff {settings : Settings} {spelling : String} :
    spelling ∈ settings.tiers ↔ ∃ tier, settings.tiers[spelling]? = some tier := by
  rw [← Std.ExtTreeMap.isSome_getElem?_iff_mem, Option.isSome_iff_exists]

/-- Where the spellings of each id stand in the order of their bytes, the last entry to spell an id
has the greatest spelling. -/
theorem greatest_of_find?_reverse {entries : List (String × String)}
    (hsorted : entries.Pairwise fun a b =>
      sameId a.1 b.1 = true → a.1 = b.1 ∨ BytewiseLess a.1 b.1)
    {id : String} {last : String × String}
    (h : entries.reverse.find? (fun entry => sameId entry.1 id) = some last) :
    last ∈ entries ∧ sameId last.1 id = true ∧
      ∀ entry ∈ entries, sameId entry.1 id = true →
        entry.1 = last.1 ∨ BytewiseLess entry.1 last.1 := by
  obtain ⟨hsame, after, before, hlist, hafter⟩ := List.find?_eq_some_iff_append.mp h
  have hmem : ∀ entry, entry ∈ entries ↔ entry ∈ after ++ last :: before := by
    intro entry
    rw [← hlist, List.mem_reverse]
  have hreverse := List.pairwise_reverse.mpr hsorted
  rw [hlist] at hreverse
  have hbefore := (List.pairwise_cons.mp (List.pairwise_append.mp hreverse).2.1).1
  refine ⟨(hmem last).mpr (List.mem_append_right _ (List.mem_cons_self ..)), hsame, ?_⟩
  intro entry hentry hid
  rcases List.mem_append.mp ((hmem entry).mp hentry) with hin | hin
  · exact absurd hid (by simpa using hafter entry hin)
  · rcases List.mem_cons.mp hin with rfl | hin
    · exact .inl rfl
    · apply hbefore entry hin
      rw [sameId_congr hid, sameId_comm, hsame]

/-- A tier that a layer names stands under the greatest spelling of the id. -/
theorem exists_spelling_of_named? {settings : Settings} {id tier : String}
    (h : settings.named? id = some tier) :
    ∃ spelling, settings.tiers[spelling]? = some tier ∧ sameId spelling id = true ∧
      ∀ other ∈ settings.tiers, sameId other id = true →
        other = spelling ∨ BytewiseLess other spelling := by
  obtain ⟨⟨spelling, tier⟩, hfind, rfl⟩ := Option.map_eq_some_iff.mp h
  have hsorted : settings.tiers.toList.Pairwise fun a b =>
      sameId a.1 b.1 = true → a.1 = b.1 ∨ BytewiseLess a.1 b.1 := by
    apply (pairwise_tiers settings).imp
    intro a b hlt hsame
    exact .inr (bytewiseLess_of_lt hsame hlt)
  obtain ⟨hmem, hsame, hgreatest⟩ := greatest_of_find?_reverse hsorted hfind
  refine ⟨spelling, Std.ExtTreeMap.mem_toList_iff_getElem?_eq_some.mp hmem, hsame, ?_⟩
  intro other hother hid
  obtain ⟨value, hvalue⟩ := mem_tiers_iff.mp hother
  exact hgreatest (other, value) (Std.ExtTreeMap.mem_toList_iff_getElem?_eq_some.mpr hvalue) hid

/-- A layer names no tier for an id that it does not spell. -/
theorem named?_eq_none_iff {settings : Settings} {id : String} :
    settings.named? id = none ↔ ∀ other ∈ settings.tiers, sameId other id = false := by
  rw [named?, Option.map_eq_none_iff, List.find?_eq_none]
  constructor
  · intro h other hother
    obtain ⟨value, hvalue⟩ := mem_tiers_iff.mp hother
    rw [← Std.ExtTreeMap.mem_toList_iff_getElem?_eq_some] at hvalue
    exact Bool.eq_false_iff.mpr (h _ (List.mem_reverse.mpr hvalue))
  · intro h entry hentry
    have hvalue := Std.ExtTreeMap.mem_toList_iff_getElem?_eq_some.mp (List.mem_reverse.mp hentry)
    exact Bool.eq_false_iff.mp (h _ (mem_tiers_iff.mpr ⟨_, hvalue⟩))

/-- The tier under the greatest spelling of an id is the one that the layer names. -/
theorem named?_eq_some {settings : Settings} {id spelling tier : String}
    (hspelling : settings.tiers[spelling]? = some tier) (hsame : sameId spelling id = true)
    (hgreatest : ∀ other ∈ settings.tiers, sameId other id = true →
      other = spelling ∨ BytewiseLess other spelling) :
    settings.named? id = some tier := by
  have hmem : spelling ∈ settings.tiers := mem_tiers_iff.mpr ⟨_, hspelling⟩
  cases h : settings.named? id with
  | none => exact absurd hsame (Bool.eq_false_iff.mp (named?_eq_none_iff.mp h spelling hmem))
  | some value =>
    obtain ⟨found, hfound, hid, hle⟩ := exists_spelling_of_named? h
    have hfoundMem : found ∈ settings.tiers := mem_tiers_iff.mpr ⟨_, hfound⟩
    have heq : spelling = found := by
      rcases hle spelling hmem hsame with heq | hless
      · exact heq
      · rcases hgreatest found hfoundMem hid with heq | hgreater
        · exact heq.symm
        · exact absurd hgreater hless.asymm
    rw [← hfound, ← heq, hspelling]

/-- Layers that agree on the spellings of an id name the same tier for it. -/
theorem named?_congr {a b : Settings} {id : String}
    (h : ∀ spelling, sameId spelling id = true → a.tiers[spelling]? = b.tiers[spelling]?) :
    a.named? id = b.named? id := by
  have hmem : ∀ spelling, sameId spelling id = true →
      (spelling ∈ a.tiers ↔ spelling ∈ b.tiers) := by
    intro spelling hsame
    rw [mem_tiers_iff, mem_tiers_iff, h spelling hsame]
  cases hb : b.named? id with
  | none =>
    rw [named?_eq_none_iff] at hb ⊢
    intro other hother
    cases hsame : sameId other id with
    | false => rfl
    | true => exact hsame.symm.trans (hb other ((hmem other hsame).mp hother))
  | some tier =>
    obtain ⟨spelling, hspelling, hsame, hgreatest⟩ := exists_spelling_of_named? hb
    apply named?_eq_some ((h spelling hsame).trans hspelling) hsame
    intro other hother hid
    exact hgreatest other ((hmem other hid).mp hother) hid

/-- Of entries that are inserted one after the other the last one to spell a folded id counts. -/
theorem getElem?_foldl_insert (entries : List (String × String))
    (base : Std.ExtTreeMap String String) {id : String} (hid : foldId id = id) :
    (entries.foldl (fun tiers entry => tiers.insert (foldId entry.1) entry.2) base)[id]? =
      ((entries.reverse.find? fun entry => sameId entry.1 id).map (·.2)).or base[id]? := by
  induction entries generalizing base with
  | nil => rfl
  | cons entry entries ih =>
    have hsame : sameId entry.1 id = true ↔ foldId entry.1 = id := by rw [sameId_iff, hid]
    have hinsert : (base.insert (foldId entry.1) entry.2)[id]? =
        (([entry].find? fun entry => sameId entry.1 id).map (·.2)).or base[id]? := by
      rw [Std.ExtTreeMap.getElem?_insert, List.find?_singleton]
      by_cases h : foldId entry.1 = id
      · rw [if_pos (hsame.mpr h), if_pos (Std.compare_eq_iff_eq.mpr h)]
        rfl
      · rw [if_neg (mt hsame.mp h), if_neg (mt Std.compare_eq_iff_eq.mp h)]
        rfl
    rw [List.foldl_cons, ih, List.reverse_cons, List.find?_append, Option.map_or, Option.or_assoc,
      hinsert]

/-- Entries are inserted under folded ids only. -/
theorem getElem?_foldl_insert_of_ne (entries : List (String × String))
    (base : Std.ExtTreeMap String String) {id : String} (hid : foldId id ≠ id) :
    (entries.foldl (fun tiers entry => tiers.insert (foldId entry.1) entry.2) base)[id]? =
      base[id]? := by
  induction entries generalizing base with
  | nil => rfl
  | cons entry entries ih =>
    have hne : foldId entry.1 ≠ id := by
      rintro rfl
      exact hid (foldId_foldId entry.1)
    rw [List.foldl_cons, ih, Std.ExtTreeMap.getElem?_insert,
      if_neg (mt Std.compare_eq_iff_eq.mp hne)]

/-- The tier of a folded id is the one that the upper layer names, and else the one below it. -/
theorem getElem?_tiers_merge (base top : Settings) {id : String} (hid : foldId id = id) :
    (base.merge top).tiers[id]? = (top.named? id).or base.tiers[id]? := by
  rw [merge, Std.ExtTreeMap.foldl_eq_foldl_toList]
  exact getElem?_foldl_insert _ _ hid

/-- The tier under a spelling that is not folded stays. -/
theorem getElem?_tiers_merge_of_ne (base top : Settings) {id : String} (hid : foldId id ≠ id) :
    (base.merge top).tiers[id]? = base.tiers[id]? := by
  rw [merge, Std.ExtTreeMap.foldl_eq_foldl_toList]
  exact getElem?_foldl_insert_of_ne _ _ hid

/-- Laying settings over others leaves ids of tiers folded. -/
theorem folded_merge {base : Settings} (h : ∀ id ∈ base.tiers, foldId id = id) (top : Settings) :
    ∀ id ∈ (base.merge top).tiers, foldId id = id := by
  rw [merge, Std.ExtTreeMap.foldl_eq_foldl_toList]
  generalize base.tiers = tiers at h
  induction top.tiers.toList generalizing tiers with
  | nil => exact h
  | cons entry entries ih =>
    apply ih
    intro id hid
    rcases Std.ExtTreeMap.mem_insert.mp hid with heq | hin
    · rw [← Std.compare_eq_iff_eq.mp heq, foldId_foldId]
    · exact h id hin

end Settings

end SqlReview

import Mathlib.Data.List.TakeWhile
import SqlReview.Analysis
import SqlReview.Proofs.Rule.Evaluate

/-!
# The wording of recommendations

A recommendation is worded in printable ASCII, whatever the statement is that it is about: a
description may hold a count or the name of a function, and of a statement nothing else. So a
recommendation never breaks a line, and its description is not taken for a suggestion.
-/

namespace SqlReview.Rule

open SqlReview.Text

/-! ### Texts on one line -/

/-- A printable character of ASCII. -/
def isPrintable (c : Char) : Bool :=
  ' ' ≤ c && c ≤ '~'

/-- Whether a text is printable, and so stays on one line. -/
def IsLine (s : String) : Prop :=
  ∀ c ∈ s.toList, isPrintable c = true

/-- A character that is not printable is not in a line. -/
theorem IsLine.notMem {s : String} (h : IsLine s) {c : Char} (hc : isPrintable c = false) :
    c ∉ s.toList := by
  intro hmem
  exact absurd (h c hmem) (Bool.eq_false_iff.mp hc)

/-- Printable characters are on one line. -/
theorem isLine_ofList {l : List Char} (h : l.all isPrintable = true) :
    IsLine (String.ofList l) := by
  intro c hc
  rw [String.toList_ofList] at hc
  exact List.all_eq_true.mp h c hc

/-- Two texts on one line each are on one line together. -/
theorem IsLine.append {s t : String} (hs : IsLine s) (ht : IsLine t) : IsLine (s ++ t) := by
  intro c hc
  rw [String.toList_append, List.mem_append] at hc
  exact hc.elim (hs c) (ht c)

/-- Texts on one line each are on one line together, however many. -/
theorem isLine_join {l : List String} (h : ∀ s ∈ l, IsLine s) : IsLine (String.join l) := by
  intro c hc
  rw [String.toList_join, List.mem_flatMap] at hc
  obtain ⟨s, hs, hc⟩ := hc
  exact h s hs c hc

private theorem isPrintable_of_isDigit {c : Char} (h : c.isDigit = true) :
    isPrintable c = true := by
  simp only [Char.isDigit, Bool.and_eq_true, decide_eq_true_eq, ge_iff_le,
    UInt32.le_iff_toNat_le] at h
  simp only [isPrintable, Bool.and_eq_true, decide_eq_true_eq, Char.le_def, UInt32.le_iff_toNat_le]
  exact ⟨Nat.le_trans (by decide) h.1, Nat.le_trans h.2 (by decide)⟩

/-- A number is written in digits. -/
theorem isDigit_of_mem_toString {n : Nat} {c : Char} (h : c ∈ (toString n).toList) :
    c.isDigit = true := by
  rw [Nat.toString_eq_repr, Nat.toList_repr] at h
  exact Nat.isDigit_of_mem_toDigits (Nat.succ_pos 9) (Nat.le_refl 10) h

/-- A number begins with a digit. -/
theorem exists_cons_of_toString (n : Nat) :
    ∃ c l, (toString n).toList = c :: l ∧ c.isDigit = true := by
  cases h : (toString n).toList with
  | nil =>
    rw [Nat.toString_eq_repr, Nat.toList_repr] at h
    exact absurd h Nat.toDigits_ne_nil
  | cons c l => exact ⟨c, l, rfl, isDigit_of_mem_toString (by rw [h]; exact List.mem_cons_self ..)⟩

/-- A number is on one line. -/
theorem isLine_toString (n : Nat) : IsLine (toString n) :=
  fun _ hc => isPrintable_of_isDigit (isDigit_of_mem_toString hc)

/-! ### Descriptions -/

/-- A line that begins with something else than a hyphen, and so does not begin like the arrow
before a suggestion. -/
structure IsDescription (s : String) : Prop where
  line : IsLine s
  head : ∃ c, s.toList.head? = some c ∧ c ≠ '-'

private theorem isDescription_ofList {c : Char} {l : List Char} (hc : c ≠ '-')
    (h : (c :: l).all isPrintable = true) : IsDescription (String.ofList (c :: l)) where
  line := isLine_ofList h
  head := ⟨c, by rw [String.toList_ofList, List.head?_cons], hc⟩

private theorem isDescription_toString (n : Nat) : IsDescription (toString n) where
  line := isLine_toString n
  head := by
    obtain ⟨c, l, hl, hdigit⟩ := exists_cons_of_toString n
    refine ⟨c, by rw [hl, List.head?_cons], ?_⟩
    rintro rfl
    exact absurd hdigit (by decide)

private theorem IsDescription.append {s t : String} (hs : IsDescription s) (ht : IsLine t) :
    IsDescription (s ++ t) where
  line := hs.line.append ht
  head := by
    obtain ⟨c, hhead, hc⟩ := hs.head
    exact ⟨c, by rw [String.toList_append, List.head?_append, hhead, Option.some_or], hc⟩

/-! ### Findings -/

/-- Whether a finding is told in lines. -/
structure Finding.IsWorded (f : Finding) : Prop where
  description : IsDescription f.description
  suggestion : IsLine f.suggestion

private theorem Finding.IsWorded.of_findWhen {condition : Bool} {description suggestion : String}
    {f : Finding} (h : findWhen condition description suggestion = some f)
    (hd : IsDescription description) (hs : IsLine suggestion) : f.IsWorded := by
  obtain ⟨-, rfl⟩ := findWhen_eq_some_iff.mp h
  exact ⟨hd, hs⟩

private theorem Finding.IsWorded.of_texts {condition : Bool} {c : Char} {d e : List Char}
    {f : Finding} (h : findWhen condition (String.ofList (c :: d)) (String.ofList e) = some f)
    (hc : c ≠ '-') (hd : (c :: d).all isPrintable = true) (he : e.all isPrintable = true) :
    f.IsWorded :=
  .of_findWhen h (isDescription_ofList hc hd) (isLine_ofList he)

private theorem Finding.IsWorded.of_count {condition : Bool} {c : Char} {d e g : List Char}
    {n : Nat} {f : Finding}
    (h : findWhen condition (String.ofList (c :: d) ++ toString n ++ String.ofList e)
      (String.ofList g) = some f)
    (hc : c ≠ '-') (hd : (c :: d).all isPrintable = true) (he : e.all isPrintable = true)
    (hg : g.all isPrintable = true) : f.IsWorded :=
  .of_findWhen h
    (((isDescription_ofList hc hd).append (isLine_toString n)).append (isLine_ofList he))
    (isLine_ofList hg)

private theorem isPrintable_of_isFunctionChar {c : Char} (h : isFunctionChar c = true) :
    isPrintable c = true := by
  rw [isFunctionChar, isCapital, Bool.or_eq_true, Bool.or_eq_true, beq_iff_eq] at h
  rcases h with (hupper | rfl) | hdigit
  · delta Char.isUpper at hupper
    simp only [decide_eq_true_eq, ge_iff_le, UInt32.le_iff_toNat_le] at hupper
    simp only [isPrintable, Bool.and_eq_true, decide_eq_true_eq, Char.le_def,
      UInt32.le_iff_toNat_le]
    exact ⟨Nat.le_trans (by decide) hupper.1, Nat.le_trans hupper.2 (by decide)⟩
  · rfl
  · exact isPrintable_of_isDigit hdigit

/-- The name of a function is one word, whatever stands around it. -/
theorem isLine_of_wrappingFunction? {condition : List Char} {name : String}
    (h : wrappingFunction? condition = some name) : IsLine name := by
  obtain ⟨found, -, rfl⟩ := List.mem_map.mp (List.mem_of_find?_eq_some h)
  apply isLine_ofList
  rw [List.all_eq_true]
  intro c hc
  exact isPrintable_of_isFunctionChar (List.mem_takeWhile_imp hc)

/-- Whatever a rule finds in a statement is told in lines. -/
theorem isWorded_of_check {r : Rule} (hr : r ∈ catalogue) {s : Subject} {f : Finding}
    (h : r.check s = some f) : f.IsWorded := by
  simp only [catalogue, List.mem_cons, List.not_mem_nil, or_false] at hr
  rcases hr with rfl | rfl | rfl | rfl | rfl | rfl | rfl | rfl | rfl | rfl | rfl | rfl | rfl |
    rfl | rfl | rfl | rfl | rfl | rfl | rfl
  -- the critical rules
  · exact .of_findWhen h
      ((isDescription_ofList (by decide) (by decide)).append (isLine_ofList (by decide)))
      (isLine_ofList (by decide))
  · exact .of_texts h (by decide) (by decide) (by decide)
  · exact .of_count h (by decide) (by decide) (by decide) (by decide)
  · exact .of_count h (by decide) (by decide) (by decide) (by decide)
  -- the warnings
  · exact .of_texts h (by decide) (by decide) (by decide)
  · exact .of_texts h (by decide) (by decide) (by decide)
  · exact .of_count h (by decide) (by decide) (by decide) (by decide)
  · exact .of_count h (by decide) (by decide) (by decide) (by decide)
  · exact .of_count h (by decide) (by decide) (by decide) (by decide)
  · exact .of_findWhen h
      (((isDescription_toString _).append (isLine_ofList (by decide))).append
        (isLine_ofList (by decide)))
      (isLine_ofList (by decide))
  -- the rules that inform
  · exact .of_texts h (by decide) (by decide) (by decide)
  · exact .of_texts h (by decide) (by decide) (by decide)
  · exact .of_texts h (by decide) (by decide) (by decide)
  · obtain ⟨condition, -, h⟩ := Option.bind_eq_some_iff.mp h
    obtain ⟨name, hname, h⟩ := Option.bind_eq_some_iff.mp h
    obtain rfl := Option.some.inj h
    exact ⟨((isDescription_ofList (by decide) (by decide)).append
      (isLine_of_wrappingFunction? hname)).append (isLine_ofList (by decide)),
      isLine_ofList (by decide)⟩
  · exact .of_texts h (by decide) (by decide) (by decide)
  · obtain ⟨list, -, h⟩ := Option.bind_eq_some_iff.mp h
    exact .of_texts h (by decide) (by decide) (by decide)
  · obtain ⟨longest, -, h⟩ := Option.bind_eq_some_iff.mp h
    exact .of_count h (by decide) (by decide) (by decide) (by decide)
  · exact .of_count h (by decide) (by decide) (by decide) (by decide)
  · exact .of_texts h (by decide) (by decide) (by decide)
  · obtain ⟨keys, -, h⟩ := Option.bind_eq_some_iff.mp h
    exact .of_texts h (by decide) (by decide) (by decide)

/-! ### Recommendations -/

/-- Whether the id and the title of a rule go on one line, and the id ends where a colon follows. -/
structure Entry.IsWorded (e : Entry) : Prop where
  id : IsLine e.id
  colon : ':' ∉ e.id.toList
  title : IsLine e.title

private theorem Entry.IsWorded.of_texts {id title : List Char} {severity : Severity}
    (hid : id.all isPrintable = true) (hcolon : ':' ∉ id) (htitle : title.all isPrintable = true) :
    Entry.IsWorded { id := String.ofList id, title := String.ofList title, severity } where
  id := isLine_ofList hid
  colon := by rwa [String.toList_ofList]
  title := isLine_ofList htitle

private theorem isWorded_entry {r : Rule} (hr : r ∈ catalogue) : r.entry.IsWorded := by
  simp only [catalogue, List.mem_cons, List.not_mem_nil, or_false] at hr
  rcases hr with rfl | rfl | rfl | rfl | rfl | rfl | rfl | rfl | rfl | rfl | rfl | rfl | rfl |
    rfl | rfl | rfl | rfl | rfl | rfl | rfl
  all_goals exact .of_texts (by decide) (by decide) (by decide)

/-- Whether a recommendation is told in lines. -/
structure Recommendation.IsWorded (x : Recommendation) : Prop where
  id : IsLine x.id
  colon : ':' ∉ x.id.toList
  title : IsLine x.title
  description : IsDescription x.description
  suggestion : IsLine x.suggestion

private theorem isWorded_recommend {e : Entry} (he : e.IsWorded) {f : Finding} (hf : f.IsWorded) :
    (e.recommend f).IsWorded :=
  ⟨he.id, he.colon, he.title, hf.description, hf.suggestion⟩

variable {settings : Settings}

/-- A rule has the same words in every tier. -/
theorem isWorded_of_mem_enabled {r : Rule} (h : r ∈ enabled settings) : r.entry.IsWorded := by
  obtain ⟨q, hq, rfl⟩ := List.mem_map.mp h
  obtain ⟨hid, hcolon, htitle⟩ := isWorded_entry (List.mem_filter.mp hq).1
  exact ⟨hid, hcolon, htitle⟩

private theorem isWorded_of_mem_evaluate {subject : Subject} {x : Recommendation}
    (h : x ∈ evaluate (enabled settings) subject) : x.IsWorded := by
  have hfired : x ∈ fired (enabled settings) subject := (List.mergeSort_perm _ _).mem_iff.mp h
  obtain ⟨r, hr, hx⟩ := List.mem_filterMap.mp hfired
  obtain ⟨f, hf, rfl⟩ := Option.map_eq_some_iff.mp hx
  obtain ⟨q, hq, -, hcheck⟩ := exists_mem_catalogue hr
  rw [hcheck] at hf
  exact isWorded_recommend (isWorded_of_mem_enabled hr) (isWorded_of_check hq hf)

/-- Whatever is recommended for a script is told in lines. -/
theorem isWorded_of_mem_examineAll {statements : List (List Char)} {a : Analysis}
    (ha : a ∈ examineAll (enabled settings) statements) {x : Recommendation}
    (hx : x ∈ a.result.recommendations) : x.IsWorded := by
  obtain ⟨⟨s, index⟩, -, rfl⟩ := List.mem_map.mp ha
  change x ∈ (examine (enabled settings) s).2.recommendations at hx
  unfold examine at hx
  split at hx
  · exact absurd hx List.not_mem_nil
  · exact isWorded_of_mem_evaluate hx

end SqlReview.Rule

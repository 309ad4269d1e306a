import SqlReview.Proofs.Query.BoundTable
import SqlReview.Proofs.Search.Occurrence
import SqlReview.Proofs.Text.AsciiBytes
import SqlReview.Proofs.Text.LowerCase
import SqlReview.Query.Structure

/-!
# Where the characters of a name come from

The names that are found in a statement are made of its characters, in lower case. Removed comments
leave spaces behind and blanked strings a filler; no other character is ever added. So a mark that
is not in a statement is in none of its names.
-/

namespace SqlReview.Query

open SqlReview.Text SqlReview.Lexical SqlReview.Search

/-! ### Texts without comments and strings -/

/-- A text without its comments has a space for some of them, and else its own characters. -/
theorem mem_of_mem_removeFrom {c : Char} {r : Region} {s : List Char} (h : c ∈ removeFrom r s) :
    c ∈ s ∨ c = ' ' := by
  fun_induction removeFrom r s
  all_goals grind

/-- A blanked text has a filler for some of its characters, and else its own ones. -/
theorem mem_of_mem_blankFrom {c : Char} {filled : Char → Bool} {mark : Option Char} {s : List Char}
    (h : c ∈ blankFrom filled mark s) : c ∈ s ∨ c = filler := by
  have hcontent : ∀ {b : Bool} {d : Char}, c ∈ content b d → c = d ∨ c = filler := by
    intro b d hc
    unfold content at hc
    split at hc
    · exact .inr (List.eq_of_mem_replicate hc)
    · exact .inl (List.mem_singleton.mp hc)
  fun_induction blankFrom filled mark s
  all_goals grind

/-! ### Words -/

/-- The words of a text are made of its characters. -/
theorem mem_of_mem_tokens {c : Char} {s w : List Char}
    (hw : .word w ∈ tokens s ∨ .quoted w ∈ tokens s) (hc : c ∈ w) : c ∈ s := by
  fun_induction tokens s with
  | case1 => simp at hw
  | case2 d s hopen ih | case3 d s hopen hclose ih | case4 d s hopen hclose hcomma ih =>
    exact List.mem_cons_of_mem d (ih (by simpa using hw))
  | case5 d s hopen hclose hcomma hmark ih =>
    by_cases hquoted : w = s.takeWhile (· != d)
    · rw [hquoted] at hc
      exact List.mem_cons_of_mem d ((List.takeWhile_sublist _).mem hc)
    · have hrest := ih (by simpa [hquoted] using hw)
      exact List.mem_cons_of_mem d ((List.dropWhile_sublist _).mem (List.mem_of_mem_drop hrest))
  | case6 d s hopen hclose hcomma hmark hname ih =>
    by_cases hword : w = d :: s.takeWhile isNameChar
    · rw [hword] at hc
      exact List.cons_subset_cons d (List.takeWhile_sublist _).subset hc
    · have hrest := ih (by simpa [hword] using hw)
      exact List.mem_cons_of_mem d ((List.dropWhile_sublist _).mem hrest)
  | case7 d s hopen hclose hcomma hmark hname ih => exact List.mem_cons_of_mem d (ih hw)

/-! ### Candidates for tables -/

private theorem subset_of_mem_namesAfter {keyword : String} {s raw : List Char}
    (h : raw ∈ namesAfter keyword s) : raw ⊆ s := by
  obtain ⟨found, hfound, hraw⟩ := List.mem_filterMap.mp h
  have hstart : found.start.rest <:+ s := (mem_occurrencesFrom hfound).2
  unfold tableCandidate? at hraw
  split at hraw
  · exact absurd hraw (by simp)
  · next p hp =>
    simp only at hraw
    split at hraw
    · exact absurd hraw (by simp)
    · obtain rfl := Option.some.inj hraw
      exact List.Subset.trans (List.takeWhile_sublist _).subset
        ((Phrase.suffix_read hp).trans hstart).subset

private theorem subset_of_firstWord? {s w : List Char} (h : firstWord? s = some w) : w ⊆ s := by
  unfold firstWord? at h
  split at h
  · exact absurd h (by simp)
  · obtain rfl := Option.some.inj h
    exact ((List.takeWhile_sublist _).trans (List.dropWhile_sublist _)).subset

private theorem subset_of_mem_tableCandidates {s raw : List Char} (h : raw ∈ tableCandidates s) :
    raw ⊆ s := by
  rcases List.mem_append.mp h with h | h
  · rcases List.mem_append.mp h with h | h
    · exact subset_of_mem_namesAfter h
    · exact subset_of_mem_namesAfter h
  · obtain ⟨item, hitem, hraw⟩ := List.mem_filterMap.mp h
    obtain ⟨range, -, hslice⟩ := List.mem_filterMap.mp hitem
    exact List.Subset.trans (subset_of_firstWord? hraw) (subset_of_slice? hslice)

/-! ### Names -/

variable {m : Char} (hm : IsMark m) (hpos : 0 < m.toNat) (hlt : m.toNat < 'k'.toNat)

include hm hpos hlt

/-- A mark in a bound name stands in the text. -/
theorem mem_of_mem_boundNames {s name : List Char} (h : name ∈ boundNames s) (hmem : m ∈ name) :
    m ∈ s := by
  unfold boundNames at h
  split at h
  · have hbinds : (Binder.BindsOnly (fun name => m ∈ name → m ∈ s) {}) :=
      ⟨by simp, by simp⟩
    refine hbinds.run ?_ name h hmem
    intro w hw hlower
    exact mem_of_mem_tokens hw ((mem_lower hm hpos hlt w).mp hlower)
  · exact absurd h List.not_mem_nil

/-- A mark in the name of a table stands in the text. -/
theorem mem_of_mem_tables {s name : List Char} {bound : List (List Char)}
    (h : name ∈ tables s bound) (hmem : m ∈ name) : m ∈ s := by
  obtain ⟨raw, hraw, hname⟩ := List.mem_filterMap.mp (mem_tables.mp h).1
  unfold tableName? at hname
  split at hname
  · exact absurd hname (by simp)
  · simp only at hname
    split at hname
    · exact absurd hname (by simp)
    · obtain rfl := Option.some.inj hname
      rw [mem_lower hm hpos hlt] at hmem
      exact subset_of_mem_tableCandidates hraw (List.mem_filter.mp hmem).1

/-- A mark in a name that is found in a statement stands in the statement. -/
theorem mem_of_mem_names (hspace : m ≠ ' ') {s name : List Char}
    (h : name ∈ (structureOf s).boundNames ∨ name ∈ (structureOf s).tables) (hmem : m ∈ name) :
    m ∈ s := by
  have hnamed : m ∈ blankStrings (removeComments s) :=
    h.elim (mem_of_mem_boundNames hm hpos hlt · hmem) (mem_of_mem_tables hm hpos hlt · hmem)
  have hfiller : m ≠ filler := by
    rintro rfl
    exact absurd hlt (by decide)
  have hplain : m ∈ removeComments s := (mem_of_mem_blankFrom hnamed).resolve_right hfiller
  exact (mem_of_mem_removeFrom hplain).resolve_right hspace

end SqlReview.Query

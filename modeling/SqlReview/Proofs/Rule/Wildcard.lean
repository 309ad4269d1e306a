import SqlReview.Proofs.Rule.Tidy
import SqlReview.Proofs.Search.Occurrence
import SqlReview.Proofs.Text.Bytes

/-!
# Leading wildcards and layout

The rule on wildcards finds `LIKE` in the blanked text and looks at the other text, at the byte
offset where the occurrence ends. Where one run of blanks takes the place of another, occurrences
keep their order, and each ends before or after the run. The byte offset of its end is counted from
the start in the first case and from the end in the second, and the same character stands there.
-/

namespace SqlReview.Rule

open SqlReview.Text SqlReview.Lexical SqlReview.Search

/-! ### Occurrences of `LIKE` -/

/-- `LIKE` and its mark are sought as they stand. -/
theorem sought_likePattern : likePattern.Sought .none := by
  have hmark : Solid .none fun c => c == apostrophe || c == doubleQuote := solid_none (by decide)
  have hi : (Phrase.exactly "I").Sought .none := Phrase.sought_exactly (by decide)
  apply Phrase.sought_all [.boundary, .opt (.exactly "I")]
    [.gap, .one fun c => c == apostrophe || c == doubleQuote]
  · intro a ha
    simp only [List.mem_cons, List.not_mem_nil, or_false] at ha
    rcases ha with rfl | rfl
    · exact Phrase.waits_boundary
    · exact hi.refuses.waits.opt
  · intro a ha
    simp only [List.mem_append, List.mem_cons, List.not_mem_nil, or_false] at ha
    rcases ha with (rfl | rfl) | rfl | rfl
    · exact Phrase.steady_boundary
    · exact hi.steady.opt
    · exact Phrase.steady_gap
    · exact Phrase.steady_one hmark
  · exact Phrase.sought_exactly (by decide)

private theorem exists_mark_before {s : List Char} {o : Occurrence}
    (h : o ∈ occurrences likePattern s) : ∃ c, isBlank c = false ∧ c :: o.stop.rest <:+ s := by
  have hends : likePattern.EndsIn fun c => c == apostrophe || c == doubleQuote :=
    Phrase.endsIn_one.all [.boundary, .opt (.exactly "I"), .exactly "LIKE", .gap]
  obtain ⟨c, hc, hsuffix⟩ := hends.occurrences h
  refine ⟨c, ?_, hsuffix⟩
  rw [Bool.or_eq_true, beq_iff_eq, beq_iff_eq] at hc
  rcases hc with rfl | rfl <;> rfl

/-! ### Before or after a run of blanks -/

private theorem suffix_append_cases {α : Type} {a u v : List α} (h : a <:+ u ++ v) :
    (∃ x, a = x ++ v ∧ x <:+ u) ∨ a <:+ v := by
  rcases List.suffix_or_suffix_of_suffix h (List.suffix_append u v) with h' | ⟨x, rfl⟩
  · exact .inr h'
  · exact .inl ⟨x, rfl, List.suffix_append_self_iff.mp h⟩

/-- A part that a character other than a blank stands before begins before a run of blanks or
after it. -/
theorem before_or_after_blanks {a x w y : List Char} {c : Char} (hc : isBlank c = false)
    (hne : w ≠ []) (hw : isBlankText w = true) (h : c :: a <:+ x ++ (w ++ y)) :
    (∃ z, a = z ++ (w ++ y) ∧ c :: z <:+ x) ∨ c :: a <:+ y := by
  have hmem : ∀ d ∈ w, d ≠ c := by
    rintro d hd rfl
    have hblank := List.all_eq_true.mp hw d hd
    rw [hc] at hblank
    exact Bool.false_ne_true hblank
  rcases suffix_append_cases h with ⟨z, hz, hsuffix⟩ | h
  · cases z with
    | nil =>
      obtain ⟨d, w, rfl⟩ := List.exists_cons_of_ne_nil hne
      obtain rfl : c = d := (List.cons.inj hz).1
      exact absurd rfl (hmem c (List.mem_cons_self ..))
    | cons d z =>
      obtain ⟨rfl, rfl⟩ := List.cons.inj hz
      exact .inl ⟨z, rfl, hsuffix⟩
  · rcases suffix_append_cases h with ⟨z, hz, hsuffix⟩ | h
    · cases z with
      | nil =>
        rw [hz]
        exact .inr (List.suffix_refl _)
      | cons d z =>
        obtain ⟨rfl, rfl⟩ := List.cons.inj hz
        exact absurd rfl (hmem c (hsuffix.subset (List.mem_cons_self ..)))
    · exact .inr h

/-- Whether a wildcard stands at an offset of a first part does not depend on the blanks that
follow it. -/
theorem wildcard_before_blanks {x y y' : List Char} (hy : startsBlank y = true)
    (hy' : startsBlank y' = true) {n : Nat} (hn : n ≤ byteLength x) :
    (((dropBytes? n (x ++ y)).bind List.head?) == some '%') =
      (((dropBytes? n (x ++ y')).bind List.head?) == some '%') := by
  have hblank : ∀ {c : Char}, isBlank c = true → (some c == some '%') = false := by
    intro c hc
    rw [Option.some_beq_some]
    exact beq_of_isBlank hc (by decide)
  induction x generalizing n with
  | nil =>
    obtain rfl : n = 0 := Nat.le_zero.mp hn
    obtain ⟨c, t, rfl, hc⟩ := exists_of_startsBlank hy
    obtain ⟨c', t', rfl, hc'⟩ := exists_of_startsBlank hy'
    simp only [List.nil_append, dropBytes?_zero, Option.bind_some, List.head?_cons]
    rw [hblank hc, hblank hc']
  | cons c x ih =>
    cases n with
    | zero => rfl
    | succ n =>
      rw [byteLength_cons] at hn
      rw [List.cons_append, List.cons_append, dropBytes?, dropBytes?]
      split
      · exact ih (by omega)
      · rfl

/-! ### The rule -/

/-- A text, blanked or not, in which one run of blanks is left open. -/
structure Frame where
  blankedBefore : List Char
  blankedAfter : List Char
  before : List Char
  after : List Char
  length_before : byteLength before = byteLength blankedBefore
  length_after : byteLength after = byteLength blankedAfter

/-- The subject that a frame is with a run of blanks. -/
def Frame.subject (x : Frame) (m : Query.Metrics) (w : List Char) : Subject where
  metrics := m
  normalized := x.before ++ (w ++ x.after)
  blanked := x.blankedBefore ++ (w ++ x.blankedAfter)

variable (x : Frame) (m : Query.Metrics) {v w : List Char}

/-- A subject is the same tidy text with one run of blanks and with another. -/
theorem tidy_blanked_subject (hv : v ≠ []) (hw : w ≠ []) (hbv : isBlankText v = true)
    (hbw : isBlankText w = true) :
    tidy .none (x.subject m v).blanked = tidy .none (x.subject m w).blanked := by
  have h := tidy_blanks_congr .none hv hw hbv hbw x.blankedBefore x.blankedAfter
  rwa [List.append_assoc, List.append_assoc] at h

/-- Occurrences that are one in the tidy text open a wildcard both or neither. -/
theorem opensWildcard_congr (hv : v ≠ []) (hw : w ≠ []) (hbv : isBlankText v = true)
    (hbw : isBlankText w = true) {o p : Occurrence}
    (ho : o ∈ occurrences likePattern (x.subject m v).blanked)
    (hp : p ∈ occurrences likePattern (x.subject m w).blanked)
    (h : o.tidy .none = p.tidy .none) :
    opensWildcard (x.subject m v) o = opensWildcard (x.subject m w) p := by
  obtain ⟨c, hc, hcs⟩ := exists_mark_before ho
  obtain ⟨d, hd, hds⟩ := exists_mark_before hp
  have hrest : tidy .none o.stop.rest = tidy .none p.stop.rest :=
    congrArg (fun q : Occurrence => q.stop.rest) h
  have hbefore := x.length_before
  have hafter := x.length_after
  simp only [opensWildcard, Frame.subject] at hds ⊢
  rcases before_or_after_blanks hc hv hbv hcs with ⟨z, hz, hsuffix⟩ | hsuffix
  · -- The occurrence ends before the run, and so does the other one.
    have hother : c :: (z ++ (w ++ x.blankedAfter)) <:+
        x.blankedBefore ++ (w ++ x.blankedAfter) := by
      obtain ⟨u, hu⟩ := hsuffix
      rw [← hu]
      exact ⟨u, by simp⟩
    have htidy : tidy .none (z ++ (w ++ x.blankedAfter)) = tidy .none p.stop.rest := by
      have hrun := tidy_blanks_congr .none hv hw hbv hbw z x.blankedAfter
      rw [List.append_assoc, List.append_assoc, ← hz] at hrun
      rw [← hrun, hrest]
    have hpz := eq_of_tidy_eq .none hother hds hc hd htidy
    have hlength := byteLength_le_of_suffix hsuffix
    have hstarts : ∀ u : List Char, u ≠ [] → isBlankText u = true →
        startsBlank (u ++ x.after) = true := by
      intro u hu hb
      obtain ⟨e, u, rfl⟩ := List.exists_cons_of_ne_nil hu
      have he : isBlank e = true ∧ isBlankText u = true := by simpa [isBlankText] using hb
      simpa [startsBlank] using he.1
    have hoffset : ∀ u : List Char, byteLength (x.blankedBefore ++ (u ++ x.blankedAfter)) -
        byteLength (z ++ (u ++ x.blankedAfter)) = byteLength x.blankedBefore - byteLength z := by
      intro u
      rw [byteLength_append, byteLength_append z]
      omega
    rw [hz, ← hpz, hoffset, hoffset]
    exact wildcard_before_blanks (hstarts v hv hbv) (hstarts w hw hbw) (by omega)
  · -- The occurrence ends after the run, and so does the other one.
    have hother : c :: o.stop.rest <:+ x.blankedBefore ++ (w ++ x.blankedAfter) := by
      obtain ⟨u, hu⟩ := hsuffix
      rw [← hu]
      exact ⟨x.blankedBefore ++ w ++ u, by simp⟩
    have hop := eq_of_tidy_eq .none hother hds hc hd hrest
    have hlength := byteLength_le_of_suffix ((List.suffix_cons c _).trans hsuffix)
    have hdrop : ∀ u : List Char, dropBytes?
        (byteLength (x.blankedBefore ++ (u ++ x.blankedAfter)) - byteLength o.stop.rest)
        (x.before ++ (u ++ x.after)) =
          dropBytes? (byteLength x.blankedAfter - byteLength o.stop.rest) x.after := by
      intro u
      have hoffset : byteLength (x.blankedBefore ++ (u ++ x.blankedAfter)) -
          byteLength o.stop.rest = byteLength (x.before ++ u) +
            (byteLength x.blankedAfter - byteLength o.stop.rest) := by
        rw [byteLength_append, byteLength_append, byteLength_append]
        omega
      rw [hoffset, ← List.append_assoc, dropBytes?_byteLength_add]
    rw [← hop, hdrop, hdrop]

private theorem any_congr_of_map_eq {α β : Type} {g : α → β} {p q : α → Bool} {l k : List α}
    (hmap : l.map g = k.map g) (h : ∀ a ∈ l, ∀ b ∈ k, g a = g b → p a = q b) :
    l.any p = k.any q := by
  induction l generalizing k with
  | nil =>
    rw [List.map_nil, eq_comm, List.map_eq_nil_iff] at hmap
    rw [hmap]
    rfl
  | cons a l ih =>
    cases k with
    | nil => exact absurd hmap (by simp)
    | cons b k =>
      rw [List.map_cons, List.map_cons] at hmap
      obtain ⟨hab, hlk⟩ := List.cons.inj hmap
      have hrest := ih hlk fun a' ha b' hb =>
        h a' (List.mem_cons_of_mem a ha) b' (List.mem_cons_of_mem b hb)
      rw [List.any_cons, List.any_cons, hrest,
        h a (List.mem_cons_self ..) b (List.mem_cons_self ..) hab]

/-- The rule on wildcards finds the same with one run of blanks and with another. -/
theorem leadingWildcard_congr (hv : v ≠ []) (hw : w ≠ []) (hbv : isBlankText v = true)
    (hbw : isBlankText w = true) :
    leadingWildcard.check (x.subject m v) = leadingWildcard.check (x.subject m w) := by
  have hmap : (occurrences likePattern (x.subject m v).blanked).map (Occurrence.tidy .none) =
      (occurrences likePattern (x.subject m w).blanked).map (Occurrence.tidy .none) := by
    rw [← occurrences_tidy sought_likePattern, ← occurrences_tidy sought_likePattern,
      tidy_blanked_subject x m hv hw hbv hbw]
  have hany := any_congr_of_map_eq hmap fun o ho p hp h =>
    opensWildcard_congr x m hv hw hbv hbw ho hp h
  simp only [leadingWildcard, hany]

/-- Every rule but the one on long lists finds the same with one run of blanks and with another. -/
theorem check_eq_of_blanks {r : Rule} (hr : r ∈ catalogue) (hid : r.entry.id ≠ "large-in-list")
    (hv : v ≠ []) (hw : w ≠ []) (hbv : isBlankText v = true) (hbw : isBlankText w = true) :
    r.check (x.subject m v) = r.check (x.subject m w) := by
  by_cases hwild : r.entry.id = "leading-wildcard"
  · have hmem : leadingWildcard ∈ catalogue := by simp [catalogue]
    rw [eq_of_id_eq hr hmem hwild]
    exact leadingWildcard_congr x m hv hw hbv hbw
  · have hcontent : r.entry.id ∉ contentRules := by
      simp only [contentRules, List.mem_cons, List.not_mem_nil, or_false, not_or]
      exact ⟨hwild, hid⟩
    have hlayout := ignoresLayout_of_mem_catalogue hr hcontent
    have htidy := tidy_blanked_subject x m hv hw hbv hbw
    calc r.check (x.subject m v)
        = r.check ⟨m, [], tidy .none (x.subject m v).blanked⟩ := hlayout m _ _ _
      _ = r.check ⟨m, [], tidy .none (x.subject m w).blanked⟩ := by rw [htidy]
      _ = r.check (x.subject m w) := (hlayout m _ _ _).symm

end SqlReview.Rule

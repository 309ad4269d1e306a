import SqlReview.Proofs.Search.ExactWords
import SqlReview.Proofs.Search.MarkBehind
import SqlReview.Rule.Catalogue

/-!
# Unions that remove duplicates

Whether a union removes duplicates is told by two counts: how often a text holds a word, and how
often it holds the word with another one behind a gap. Neither search passes over anything, and
wherever both words are read the first is read as well. So the counts differ exactly where the first
word stands somewhere without the second, however many stand with it.
-/

namespace SqlReview.Search

open SqlReview.Text

/-! ### A word, and another one behind a gap -/

/-- Whether a text begins with a whole word behind a gap. -/
def GapThenWord (word : String) (s : List Char) : Prop :=
  ∃ g z, s = g ++ (word.toList ++ z) ∧ g ≠ [] ∧ isBlankText g = true ∧
    z.head?.any isWordChar = false

/-- Whether a whole word stands in a text without another one behind a gap. -/
def HoldsWithout (word next : String) (s : List Char) : Prop :=
  ∃ u z, s = u ++ (word.toList ++ z) ∧ u.getLast?.any isWordChar = false ∧
    z.head?.any isWordChar = false ∧ ¬ GapThenWord next z

namespace Phrase

variable {word next : String} {p q : Place}

private theorem AreWords.second (h : AreWords [word, next]) : AreWords [next] :=
  h.of_mem (List.mem_cons_of_mem word (List.mem_singleton_self next))

/-- Words begin and end at the two ends of a word where no word characters stand around it. -/
theorem AreWords.atBoundary_iff (h : AreWords [word]) (hbefore : p.Before word.toList q) :
    (p.atBoundary = true ↔ p.before.any isWordChar = false) ∧
      (q.atBoundary = true ↔ q.rest.head?.any isWordChar = false) := by
  obtain ⟨hstart, hstop⟩ := hbefore.atBoundary h.chars.1 h.chars.2
  rw [hstart, hstop, Bool.not_eq_true', Bool.not_eq_true']
  exact ⟨Iff.rfl, Iff.rfl⟩

/-- A word as it stands is read where it is a whole word. -/
theorem AreWords.read_word_iff (h : AreWords [word]) : (exactWords [word]).read p = some q ↔
    p.Before word.toList q ∧ p.before.any isWordChar = false ∧
      q.rest.head?.any isWordChar = false := by
  change (seq boundary (seq (exactly word) boundary)).read p = some q ↔ _
  rw [read_boundary_seq_iff, read_seq_boundary_iff, read_exactly_iff]
  constructor
  · rintro ⟨hp, hbefore, hq⟩
    obtain ⟨hstart, hstop⟩ := h.atBoundary_iff hbefore
    exact ⟨hbefore, hstart.mp hp, hstop.mp hq⟩
  · rintro ⟨hbefore, hp, hq⟩
    obtain ⟨hstart, hstop⟩ := h.atBoundary_iff hbefore
    exact ⟨hstart.mpr hp, hbefore, hstop.mpr hq⟩

private theorem AreWords.refuses_seq_boundary (h : AreWords [word]) :
    Refuses (.seq (exactly word) .boundary) :=
  (sought_exactly (h.areKeywords.2 word (List.mem_singleton_self word))).refuses.seq

/-- Two words as they stand are read where they are whole words with a gap between them. -/
theorem AreWords.read_pair_iff (h : AreWords [word, next]) :
    (exactWords [word, next]).read p = some q ↔
      ∃ g, g ≠ [] ∧ isBlankText g = true ∧ p.Before (word.toList ++ (g ++ next.toList)) q ∧
        p.before.any isWordChar = false ∧ q.rest.head?.any isWordChar = false := by
  change (seq boundary (seq (exactly word) (seq gap (seq (exactly next) boundary)))).read p =
    some q ↔ _
  rw [read_boundary_seq_iff, read_seq, Option.bind_eq_some_iff]
  simp only [read_gap_seq_iff h.second.refuses_seq_boundary, read_seq_boundary_iff,
    read_exactly_iff]
  constructor
  · rintro ⟨hp, r, hr, g, r', hne, hg, hgap, hr', hq⟩
    exact ⟨g, hne, hg, hr.trans (hgap.trans hr'), (h.first.atBoundary_iff hr).1.mp hp,
      (h.second.atBoundary_iff hr').2.mp hq⟩
  · rintro ⟨g, hne, hg, hbefore, hp, hq⟩
    obtain ⟨r, hr, hrest⟩ := Place.before_append_iff.mp hbefore
    obtain ⟨r', hgap, hr'⟩ := Place.before_append_iff.mp hrest
    exact ⟨(h.first.atBoundary_iff hr).1.mpr hp, r, hr, g, r', hne, hg, hgap, hr',
      (h.second.atBoundary_iff hr').2.mpr hq⟩

private theorem AreWords.isSome_read_word_iff (h : AreWords [word]) :
    ((exactWords [word]).read p).isSome = true ↔
      ∃ z, p.rest = word.toList ++ z ∧ p.before.any isWordChar = false ∧
        z.head?.any isWordChar = false := by
  simp only [Option.isSome_iff_exists, h.read_word_iff]
  constructor
  · rintro ⟨q, hbefore, hp, hq⟩
    exact ⟨q.rest, hbefore.rest, hp, hq⟩
  · rintro ⟨z, hrest, hp, hz⟩
    exact ⟨⟨word.toList.getLast?.or p.before, z⟩, ⟨hrest, rfl⟩, hp, hz⟩

private theorem AreWords.isSome_read_pair_iff (h : AreWords [word, next]) :
    ((exactWords [word, next]).read p).isSome = true ↔
      ∃ z, p.rest = word.toList ++ z ∧ p.before.any isWordChar = false ∧ GapThenWord next z := by
  simp only [Option.isSome_iff_exists, h.read_pair_iff]
  constructor
  · rintro ⟨q, g, hne, hg, hbefore, hp, hq⟩
    refine ⟨g ++ (next.toList ++ q.rest), ?_, hp, g, q.rest, rfl, hne, hg, hq⟩
    rw [hbefore.rest, List.append_assoc, List.append_assoc]
  · rintro ⟨z, hrest, hp, g, y, rfl, hne, hg, hy⟩
    refine ⟨⟨(word.toList ++ (g ++ next.toList)).getLast?.or p.before, y⟩, g, hne, hg,
      ⟨?_, rfl⟩, hp, hy⟩
    rw [hrest, List.append_assoc, List.append_assoc]

/-- Of two words only the first is read where it stands without the second. -/
theorem AreWords.reads_word_alone_iff (h : AreWords [word, next]) :
    (((exactWords [word]).read p).isSome = true ∧
        ((exactWords [word, next]).read p).isSome = false) ↔
      ∃ z, p.rest = word.toList ++ z ∧ p.before.any isWordChar = false ∧
        z.head?.any isWordChar = false ∧ ¬ GapThenWord next z := by
  rw [Bool.eq_false_iff, ne_eq, h.isSome_read_pair_iff, h.first.isSome_read_word_iff]
  constructor
  · rintro ⟨⟨z, hrest, hp, hz⟩, hnot⟩
    exact ⟨z, hrest, hp, hz, fun hnext => hnot ⟨z, hrest, hp, hnext⟩⟩
  · rintro ⟨z, hrest, hp, hz, hnot⟩
    refine ⟨⟨z, hrest, hp, hz⟩, ?_⟩
    rintro ⟨z', hrest', -, hnext⟩
    rw [hrest] at hrest'
    exact hnot (List.append_cancel_left hrest' ▸ hnext)

/-! ### Searches for both -/

/-- Whether the first character of a word stands nowhere else in it, nor in another word. -/
def OnceFirst (word next : String) : Prop :=
  ∃ c w, word.toList = c :: w ∧ c ∉ w ∧ c ∉ next.toList

/-- A word that begins nowhere in itself is found wherever it is read. -/
theorem AreWords.thorough_word (h : AreWords [word]) (honce : OnceFirst word next) :
    (exactWords [word]).Thorough := by
  obtain ⟨c, w, hword, hw, -⟩ := honce
  suffices hopens : OpensOnce (· == c) (exactWords [word]) from hopens.thorough
  intro p q hq
  obtain ⟨hbefore, -⟩ := h.read_word_iff.mp hq
  rw [hword] at hbefore
  refine ⟨c, w, hbefore, beq_self_eq_true c, fun d hd => ?_⟩
  rw [beq_eq_false_iff_ne]
  rintro rfl
  exact hw hd

/-- So is the word with another one behind it in which it does not begin either. -/
theorem AreWords.thorough_pair (h : AreWords [word, next]) (honce : OnceFirst word next) :
    (exactWords [word, next]).Thorough := by
  obtain ⟨c, w, hword, hw, hnext⟩ := honce
  have hsolid : isWordChar c = true := h.first.chars.2 c (by simp [hword])
  suffices hopens : OpensOnce (· == c) (exactWords [word, next]) from hopens.thorough
  intro p q hq
  obtain ⟨g, -, hg, hbefore, -⟩ := h.read_pair_iff.mp hq
  rw [hword] at hbefore
  refine ⟨c, w ++ (g ++ next.toList), hbefore, beq_self_eq_true c, fun d hd => ?_⟩
  rw [beq_eq_false_iff_ne]
  rintro rfl
  rcases List.mem_append.mp hd with hd | hd
  · exact hw hd
  · rcases List.mem_append.mp hd with hd | hd
    · rw [(solid_isWordChar .none).blank d (List.all_eq_true.mp hg d hd)] at hsolid
      exact absurd hsolid Bool.false_ne_true
    · exact hnext hd

end Phrase

open Phrase

/-- Of two conditions the wider one holds more often when it holds somewhere without the other. -/
theorem countP_lt_countP_iff {l : List Nat} {p q : Nat → Bool}
    (h : ∀ n, q n = true → p n = true) :
    l.countP q < l.countP p ↔ ∃ n ∈ l, p n = true ∧ q n = false := by
  have hboth : (l.filter q).countP p = l.countP q := by
    rw [List.countP_filter]
    refine List.countP_congr fun n _ => ?_
    rw [Bool.and_eq_true]
    exact ⟨fun hn => hn.2, fun hn => ⟨h n hn, hn⟩⟩
  rw [List.countP_eq_countP_filter_add l p q, hboth, Nat.lt_add_right_iff_pos,
    List.countP_pos_iff]
  simp only [List.mem_filter, Bool.not_eq_true', and_assoc, and_comm (a := q _ = false)]

variable {word next : String}

/-- Words that are found wherever they are read are found once for each such offset. -/
theorem count_exactWords_eq {words : List String} (h : (exactWords words).Thorough)
    (s : List Char) : count (.exactWords words) s =
      (List.range s.length).countP fun n => ((exactWords words).read (placeAt none s n)).isSome :=
  h.length_occurrencesFrom none s

/-- Two words are read only where the first of them is. -/
theorem isSome_read_first (h : AreWords [word, next]) {p : Place}
    (hread : ((exactWords [word, next]).read p).isSome = true) :
    ((exactWords [word]).read p).isSome = true := by
  cases hfirst : (exactWords [word]).read p with
  | none =>
    rw [h.read_first hfirst] at hread
    exact absurd hread Bool.false_ne_true
  | some q => rfl

/-- Two words are found at most as often as the first of them. -/
theorem count_pair_le (h : AreWords [word, next]) (honce : OnceFirst word next) (s : List Char) :
    count (.exactWords [word, next]) s ≤ count (.exactWords [word]) s := by
  rw [count_exactWords_eq (h.thorough_pair honce),
    count_exactWords_eq (h.first.thorough_word honce)]
  exact List.countP_mono_left fun n _ => isSome_read_first h

/-- The first of two words is found more often than both exactly where it stands somewhere without
the second. -/
theorem count_pair_lt_iff (h : AreWords [word, next]) (honce : OnceFirst word next)
    (s : List Char) :
    count (.exactWords [word, next]) s < count (.exactWords [word]) s ↔
      HoldsWithout word next s := by
  rw [count_exactWords_eq (h.thorough_pair honce),
    count_exactWords_eq (h.first.thorough_word honce),
    countP_lt_countP_iff fun n => isSome_read_first h]
  simp only [h.reads_word_alone_iff, List.mem_range]
  constructor
  · rintro ⟨n, -, z, hrest, hbefore, hz, hnot⟩
    rw [placeAt, Option.or_none] at hbefore
    refine ⟨s.take n, z, ?_, hbefore, hz, hnot⟩
    rw [← hrest]
    exact (List.take_append_drop n s).symm
  · rintro ⟨u, z, rfl, hbefore, hz, hnot⟩
    have hne := h.first.chars.1
    refine ⟨u.length, ?_, z, ?_, ?_, hz, hnot⟩
    · have hlength := List.length_pos_iff.mpr hne
      rw [List.length_append, List.length_append]
      omega
    · rw [placeAt, List.drop_left]
    · rw [placeAt, List.take_left, Option.or_none]
      exact hbefore

end SqlReview.Search

namespace SqlReview.Rule

open SqlReview.Text SqlReview.Search

private theorem areWords_unionAll : Phrase.AreWords ["UNION", "ALL"] := by
  refine ⟨List.cons_ne_nil _ _, ?_⟩
  decide

private theorem onceFirst_unionAll : Phrase.OnceFirst "UNION" "ALL" :=
  ⟨'U', ['N', 'I', 'O', 'N'], by decide⟩

/-- Unions that remove duplicates are found exactly where there are any. The rule has something to
say if and only if the text with blanked literals holds a whole word `UNION` that is not followed by
a gap and the whole word `ALL`; for in no text are there more unions that keep duplicates than
unions, and there are fewer of them if and only if one stands without its `ALL`. Both searches come
to what they find without going back. -/
theorem unionWithoutAll_finds_bare_unions :
    (∀ (s : List Char) (metrics : Query.Metrics),
      (unionWithoutAll.check (Subject.of s metrics)).isSome = true ↔
        HoldsWithout "UNION" "ALL" (Subject.of s metrics).blanked) ∧
    (∀ s : List Char, (unionCounts s).1 > (unionCounts s).2 ↔ HoldsWithout "UNION" "ALL" s) ∧
    (∀ s : List Char, (unionCounts s).2 ≤ (unionCounts s).1) ∧
    (Phrase.exactWords ["UNION"]).Direct ∧ (Phrase.exactWords ["UNION", "ALL"]).Direct := by
  have hcounts : ∀ s : List Char,
      (unionCounts s).1 > (unionCounts s).2 ↔ HoldsWithout "UNION" "ALL" s :=
    count_pair_lt_iff areWords_unionAll onceFirst_unionAll
  refine ⟨?_, hcounts, count_pair_le areWords_unionAll onceFirst_unionAll,
    Phrase.direct_exactWords areWords_unionAll.first.areKeywords,
    Phrase.direct_exactWords areWords_unionAll.areKeywords⟩
  intro s metrics
  rw [← hcounts]
  change (findWhen (decide _) _ _).isSome = true ↔ _
  rw [isSome_findWhen, decide_eq_true_eq]
  rfl

end SqlReview.Rule

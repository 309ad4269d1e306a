import SqlReview.Proofs.Search.Mark
import SqlReview.Proofs.Search.Word
import SqlReview.Proofs.Text.WordAt

/-!
# Searches for one word

A word is found at every offset at which it stands: no occurrence of a word goes on into another
one, so a search that passes over what it has found misses nothing.
-/

namespace SqlReview.Search

open SqlReview.Text

/-! ### Places of a text -/

/-- The place at an offset of a text, given the character before the text. -/
def placeAt (before : Option Char) (s : List Char) (n : Nat) : Place :=
  ⟨(s.take n).getLast?.or before, s.drop n⟩

private theorem placeAt_succ (before : Option Char) (c : Char) (s : List Char) (n : Nat) :
    placeAt before (c :: s) (n + 1) = placeAt (some c) s n := by
  rw [placeAt, placeAt, List.take_succ_cons, List.drop_succ_cons, List.getLast?_cons]
  cases (s.take n).getLast? <;> rfl

/-- Something is found exactly where it is read at an offset. -/
theorem occurrencesFrom_ne_nil_iff {a : Phrase} (h : a.Moves) (before : Option Char)
    (s : List Char) : occurrencesFrom a before s ≠ [] ↔
      ∃ n < s.length, (a.read (placeAt before s n)).isSome = true := by
  induction s generalizing before with
  | nil => simp
  | cons c s ih =>
    cases hq : a.read ⟨before, c :: s⟩ with
    | some q =>
      rw [occurrencesFrom_of_read h hq]
      refine iff_of_true (List.cons_ne_nil _ _) ⟨0, Nat.succ_pos _, ?_⟩
      rw [show placeAt before (c :: s) 0 = ⟨before, c :: s⟩ from rfl, hq]
      rfl
    | none =>
      rw [occurrencesFrom, hq]
      refine (ih (some c)).trans ⟨?_, ?_⟩
      · rintro ⟨n, hn, hread⟩
        exact ⟨n + 1, Nat.succ_lt_succ hn, by rwa [placeAt_succ]⟩
      · rintro ⟨n, hn, hread⟩
        cases n with
        | zero =>
          rw [show placeAt before (c :: s) 0 = ⟨before, c :: s⟩ from rfl, hq] at hread
          exact absurd hread Bool.false_ne_true
        | succ n => exact ⟨n, Nat.lt_of_succ_lt_succ hn, by rwa [placeAt_succ] at hread⟩

/-- A text holds a phrase exactly if the phrase is read at an offset of it. -/
theorem holds_iff_exists_read {a : Phrase} (h : a.Moves) (s : List Char) :
    holds a s = true ↔ ∃ n < s.length, (a.read (placeAt none s n)).isSome = true := by
  rw [← occurrencesFrom_ne_nil_iff h, holds, find?, occurrences]
  cases occurrencesFrom a none s <;> simp

/-! ### Reading a word -/

/-- Where a word character stands, a word begins if none stands before it. -/
theorem Place.atBoundary_of_isWordChar {p : Place} (h : p.rest.head?.any isWordChar = true) :
    p.atBoundary = !p.before.any isWordChar := by
  rw [atBoundary, h, Bool.bne_true]

/-- Behind a word character a word ends if none stands there. -/
theorem Place.atBoundary_behind {p : Place} (h : p.before.any isWordChar = true) :
    p.atBoundary = !p.rest.head?.any isWordChar := by
  rw [atBoundary, h, Bool.true_bne]

/-- Around word characters words begin and end where no more of them stand. -/
theorem Place.Before.atBoundary {w : List Char} {p q : Place} (h : p.Before w q) (hne : w ≠ [])
    (hw : ∀ c ∈ w, isWordChar c = true) :
    p.atBoundary = !p.before.any isWordChar ∧ q.atBoundary = !q.rest.head?.any isWordChar := by
  constructor
  · obtain ⟨c, w, rfl⟩ := List.exists_cons_of_ne_nil hne
    apply Place.atBoundary_of_isWordChar
    rw [h.rest]
    exact hw c (List.mem_cons_self ..)
  · apply Place.atBoundary_behind
    rw [h.before, List.getLast?_eq_some_getLast hne]
    exact hw _ (List.getLast_mem hne)

namespace Phrase

/-- What is read where a word begins or ends. -/
theorem read_boundary_seq_iff {b : Phrase} {p q : Place} :
    (seq boundary b).read p = some q ↔ p.atBoundary = true ∧ b.read p = some q := by
  rw [read_seq, read_boundary]
  cases p.atBoundary <;> simp

/-- What is read up to where a word begins or ends. -/
theorem read_seq_boundary_iff {a : Phrase} {p q : Place} :
    (seq a boundary).read p = some q ↔ a.read p = some q ∧ q.atBoundary = true := by
  rw [read_seq, Option.bind_eq_some_iff]
  constructor
  · rintro ⟨r, hr, hq⟩
    rw [read_boundary] at hq
    split at hq
    · next hat =>
      obtain rfl := Option.some.inj hq
      exact ⟨hr, hat⟩
    · exact absurd hq (by simp)
  · rintro ⟨hq, hat⟩
    exact ⟨q, hq, by rw [read_boundary, if_pos hat]⟩

/-- A phrase at the beginning of a word is read at a boundary where it is read. -/
theorem isSome_read_boundary_seq (b : Phrase) (p : Place) :
    ((seq boundary b).read p).isSome = (p.atBoundary && (b.read p).isSome) := by
  rw [read_seq, read_boundary]
  cases p.atBoundary <;> rfl

variable {keyword : String}

private theorem read_words_eq (keyword : String) (p : Place) :
    (words [keyword]).read p =
      if p.atBoundary then ((letters keyword).read p).bind boundary.read else none := by
  change (boundary.read p).bind _ = _
  rw [read_boundary]
  split <;> rfl

/-- A word is read where it stands between two ends of words. -/
theorem read_words_iff {p q : Place} : (words [keyword]).read p = some q ↔
    p.atBoundary = true ∧ q.atBoundary = true ∧
      ∃ w, spells keyword.toList w = true ∧ p.Before w q := by
  rw [read_words_eq]
  constructor
  · intro h
    split at h
    · next hp =>
      obtain ⟨r, hr, hq⟩ := Option.bind_eq_some_iff.mp h
      rw [read_boundary] at hq
      split at hq
      · next hat =>
        obtain rfl := Option.some.inj hq
        exact ⟨hp, hat, read_letters_iff.mp hr⟩
      · exact absurd hq (by simp)
    · exact absurd h (by simp)
  · rintro ⟨hp, hq, hw⟩
    rw [if_pos hp, read_letters_iff.mpr hw, Option.bind_some, read_boundary, if_pos hq]

/-- Whether a keyword has letters that belong to words, in whichever way they are written. -/
def IsWord (keyword : String) : Prop :=
  keyword.toList ≠ [] ∧
    ∀ k ∈ keyword.toList, ∀ c, foldsTo k c = true → isWordChar c = true

/-- A keyword of word characters is one. -/
theorem isWord_of_forall (hne : keyword.toList ≠ [])
    (h : ∀ k ∈ keyword.toList, isWordChar k = true) : IsWord keyword :=
  ⟨hne, fun k hk _ hc => (isWordChar_eq_of_foldsTo hc).symm.trans (h k hk)⟩

/-- What spells a keyword begins and ends with word characters. -/
theorem IsWord.ends (hk : IsWord keyword) {w : List Char} (hw : spells keyword.toList w = true) :
    w.head?.any isWordChar = true ∧ w.getLast?.any isWordChar = true := by
  have hall := isWordChar_of_spells hk.2 hw
  obtain ⟨c, w, rfl⟩ := List.exists_cons_of_ne_nil (ne_nil_of_spells hk.1 hw)
  refine ⟨hall c (List.mem_cons_self ..), ?_⟩
  rw [List.getLast?_eq_some_getLast (List.cons_ne_nil c w)]
  exact hall _ (List.getLast_mem _)

/-- The letters of a keyword are read as a whole word if and only if no word character stands before
them or behind them. -/
theorem IsWord.isSome_read (hk : IsWord keyword) {w : List Char}
    (hw : spells keyword.toList w = true) (before : Option Char) (s : List Char) :
    ((words [keyword]).read ⟨before, w ++ s⟩).isSome =
      (!before.any isWordChar && !s.head?.any isWordChar) := by
  have hbefore : Place.Before w ⟨before, w ++ s⟩ ⟨w.getLast?.or before, s⟩ := ⟨rfl, rfl⟩
  have hletters := read_letters_iff.mpr ⟨w, hw, hbefore⟩
  obtain ⟨hstart, hstop⟩ :=
    hbefore.atBoundary (ne_nil_of_spells hk.1 hw) (isWordChar_of_spells hk.2 hw)
  rw [read_words_eq, hletters, Option.bind_some, read_boundary, hstart, hstop]
  cases before.any isWordChar <;> cases s.head?.any isWordChar <;> rfl

/-- Whether a keyword is a word whose letters are taken in either case and in no other way. -/
def IsPlainWord (keyword : String) : Prop :=
  IsWord keyword ∧ ∀ k ∈ keyword.toList, k.toLower ≠ 's' ∧ k.toLower ≠ 'k'

/-- A word is read at the offsets at which it stands. -/
theorem IsPlainWord.isSome_read_placeAt (hk : IsPlainWord keyword) (s : List Char) (n : Nat) :
    ((words [keyword]).read (placeAt none s n)).isSome = wordAt isWordChar keyword s n := by
  have hspells := spells_eq_sameText hk.2
  have hat : ∀ u w v, sameText w keyword.toList = true → u.length = n → s = u ++ (w ++ v) →
      ((words [keyword]).read (placeAt none s n)).isSome = wordAt isWordChar keyword s n := by
    rintro u w v hw rfl rfl
    rw [wordAt_append hw, placeAt, List.take_left, List.drop_left, Option.or_none]
    exact hk.1.isSome_read ((hspells w).trans hw) _ v
  rw [Bool.eq_iff_iff]
  constructor
  · intro h
    obtain ⟨q, hq⟩ := Option.isSome_iff_exists.mp h
    obtain ⟨-, -, w, hw, hrest, -⟩ := read_words_iff.mp hq
    have hle : n ≤ s.length := by
      refine Nat.le_of_not_lt fun hlt => ne_nil_of_spells hk.1.1 hw ?_
      have hnil : w ++ q.rest = [] := by
        rw [← hrest]
        exact List.drop_eq_nil_of_le (Nat.le_of_lt hlt)
      exact (List.append_eq_nil_iff.mp hnil).1
    have hsplit : s = s.take n ++ (w ++ q.rest) := by
      rw [← hrest]
      exact (List.take_append_drop n s).symm
    rw [← hat (s.take n) w q.rest ((hspells w).symm.trans hw) (List.length_take_of_le hle) hsplit]
    exact h
  · intro h
    obtain ⟨u, w, v, hs, hu, hw, -⟩ := exists_of_wordAt hk.1.1 h
    rw [hat u w v hw hu hs]
    exact h

end Phrase

/-! ### Phrases that begin with a word -/

namespace Phrase

/-- Whether a phrase takes one word and then characters that belong to none. -/
def TakesWord (a : Phrase) : Prop :=
  ∀ p q : Place, a.read p = some q → ∃ w z, p.Before (w ++ z) q ∧ w ≠ [] ∧
    (∀ c ∈ w, isWordChar c = true) ∧ ∀ c ∈ z, isWordChar c = false

variable {a b : Phrase}

/-- A word is taken before what belongs to no word. -/
theorem Takes.takesWord (ha : Takes isWordChar a) (hmoves : a.Moves)
    (hb : Takes (!isWordChar ·) b) : TakesWord (.seq a b) := by
  intro p q hq
  rw [read_seq] at hq
  obtain ⟨r, hr, hq⟩ := Option.bind_eq_some_iff.mp hq
  obtain ⟨w, hw, hword⟩ := ha p r hr
  obtain ⟨z, hz, hrest⟩ := hb r q hq
  refine ⟨w, z, hw.trans hz, ?_, hword, fun c hc => by simpa using hrest c hc⟩
  rintro rfl
  have hlength := hmoves p r hr
  rw [hw.rest, List.nil_append] at hlength
  exact absurd hlength (Nat.lt_irrefl _)

/-- A word may be taken in parts. -/
theorem TakesWord.seq (ha : Takes isWordChar a) (hb : TakesWord b) : TakesWord (.seq a b) := by
  intro p q hq
  rw [read_seq] at hq
  obtain ⟨r, hr, hq⟩ := Option.bind_eq_some_iff.mp hq
  obtain ⟨v, hv, hfirst⟩ := ha p r hr
  obtain ⟨w, z, hbefore, hne, hword, hrest⟩ := hb r q hq
  refine ⟨v ++ w, z, ?_, by simp [hne], ?_, hrest⟩
  · rw [List.append_assoc]
    exact hv.trans hbefore
  · intro c hc
    exact (List.mem_append.mp hc).elim (hfirst c) (hword c)

/-- The first of two phrases that is there takes a word when both do. -/
theorem TakesWord.either (ha : TakesWord a) (hb : TakesWord b) : TakesWord (.either a b) := by
  intro p q hq
  rw [read_either] at hq
  rcases Option.or_eq_some_iff.mp hq with hq | ⟨-, hq⟩
  · exact ha p q hq
  · exact hb p q hq

/-- The first of several phrases that is there takes a word when all do. -/
theorem takesWord_any {l : List Phrase} (h : ∀ a ∈ l, TakesWord a) : TakesWord (.any l) := by
  refine any_of ?_ TakesWord.either h
  intro p q hq
  obtain ⟨c, hc, -⟩ := read_one_iff.mp hq
  exact absurd hc Bool.false_ne_true

/-- A phrase that takes a word begins with a word character. -/
theorem TakesWord.opens (h : TakesWord a) : Opens isWordChar a := by
  intro p q hq
  obtain ⟨w, z, hbefore, hne, hword, -⟩ := h p q hq
  obtain ⟨c, w, rfl⟩ := List.exists_cons_of_ne_nil hne
  exact ⟨c, w ++ z ++ q.rest, hbefore.rest, hword c (List.mem_cons_self ..)⟩

/-- A phrase that takes a word takes something. -/
theorem TakesWord.moves (h : TakesWord a) : a.Moves := by
  intro p q hq
  obtain ⟨w, z, hbefore, hne, -⟩ := h p q hq
  have hlength : 0 < w.length := List.length_pos_iff.mpr hne
  rw [hbefore.rest, List.length_append, List.length_append]
  omega

/-- Whether a phrase takes a word where one begins, and then characters that belong to none. -/
structure WordFirst (a : Phrase) : Prop where
  onBoundary : a.OnBoundary
  takesWord : a.TakesWord

/-- What takes a word is looked for at the beginnings of words. -/
theorem TakesWord.boundary (h : TakesWord a) : WordFirst (.seq .boundary a) where
  onBoundary _ _ hq := (read_boundary_seq_iff.mp hq).1
  takesWord p q hq := h p q (read_boundary_seq_iff.mp hq).2

end Phrase

/-! ### Searches that pass over nothing -/

/-- Whether a search for a phrase finds it wherever it is read: what is found where a text begins,
if anything, comes before what is found behind its first character. -/
def Phrase.Thorough (a : Phrase) : Prop :=
  ∀ (before : Option Char) (c : Char) (s : List Char),
    occurrencesFrom a before (c :: s) =
      ((a.read ⟨before, c :: s⟩).map (Occurrence.mk ⟨before, c :: s⟩)).toList ++
        occurrencesFrom a (some c) s

/-- A thorough search finds what is read at the offsets of a text. -/
theorem Phrase.Thorough.occurrencesFrom_eq {a : Phrase} (h : a.Thorough)
    (before : Option Char) (s : List Char) :
    occurrencesFrom a before s = (List.range s.length).filterMap fun n =>
      (a.read (placeAt before s n)).map (Occurrence.mk (placeAt before s n)) := by
  induction s generalizing before with
  | nil => simp
  | cons c s ih =>
    have hfirst : placeAt before (c :: s) 0 = ⟨before, c :: s⟩ := rfl
    rw [h, ih, List.length_cons, List.range_succ_eq_map, List.filterMap_cons, hfirst,
      List.filterMap_map]
    simp only [Function.comp_def, Nat.succ_eq_add_one, placeAt_succ]
    cases a.read ⟨before, c :: s⟩ <;> rfl

/-- It finds one occurrence for each offset at which the phrase is read. -/
theorem Phrase.Thorough.length_occurrencesFrom {a : Phrase} (h : a.Thorough)
    (before : Option Char) (s : List Char) :
    (occurrencesFrom a before s).length =
      (List.range s.length).countP fun n => (a.read (placeAt before s n)).isSome := by
  rw [h.occurrencesFrom_eq, List.length_filterMap_eq_countP]
  exact List.countP_congr fun n _ => by rw [Option.isSome_map]

/-- A search is thorough if it finds behind what it has found all that is behind the first character
of it. -/
theorem Phrase.Moves.thorough {a : Phrase} (hmoves : a.Moves)
    (h : ∀ (before : Option Char) (c : Char) (s : List Char) (q : Place),
      a.read ⟨before, c :: s⟩ = some q →
        occurrencesFrom a q.before q.rest = occurrencesFrom a (some c) s) : a.Thorough := by
  intro before c s
  cases hq : a.read ⟨before, c :: s⟩ with
  | none =>
    rw [occurrencesFrom, hq]
    rfl
  | some q =>
    rw [occurrencesFrom_of_read hmoves hq, h before c s q hq]
    rfl

/-- What takes one word is found wherever it is read: nothing begins inside of a word, and nothing
begins where none stands. -/
theorem Phrase.WordFirst.thorough {a : Phrase} (h : a.WordFirst) : a.Thorough := by
  apply h.takesWord.moves.thorough
  intro before c s q hq
  obtain ⟨w, z, ⟨hrest, hbefore⟩, hne, hword, hz⟩ := h.takesWord _ q hq
  obtain ⟨d, w, rfl⟩ := List.exists_cons_of_ne_nil hne
  obtain ⟨rfl, rfl⟩ : c = d ∧ s = w ++ z ++ q.rest := List.cons.inj hrest
  have hlast : q.before = z.getLast?.or (w.getLast?.or (some c)) := by
    rw [hbefore, List.cons_append, List.getLast?_cons, List.getLast?_append]
    cases z.getLast? <;> cases w.getLast? <;> rfl
  rw [hlast, List.append_assoc,
    h.onBoundary.occurrencesFrom_inside (fun e he => hword e (List.mem_cons_of_mem c he))
      (hword c (List.mem_cons_self ..)), h.takesWord.opens.occurrencesFrom_append hz]

/-- Whether a phrase takes one character of a class, and then none of it. -/
def Phrase.OpensOnce (cls : Char → Bool) (a : Phrase) : Prop :=
  ∀ p q : Place, a.read p = some q →
    ∃ c t, p.Before (c :: t) q ∧ cls c = true ∧ ∀ d ∈ t, cls d = false

/-- What takes one character of a class is found wherever it is read. -/
theorem Phrase.OpensOnce.thorough {cls : Char → Bool} {a : Phrase} (h : a.OpensOnce cls) :
    a.Thorough := by
  have hopens : a.Opens cls := by
    intro p q hq
    obtain ⟨c, t, hbefore, hc, -⟩ := h p q hq
    exact ⟨c, t ++ q.rest, hbefore.rest, hc⟩
  have hmoves : a.Moves := by
    intro p q hq
    obtain ⟨c, t, hbefore, -⟩ := h p q hq
    rw [hbefore.rest, List.length_append, List.length_cons]
    omega
  apply hmoves.thorough
  intro before c s q hq
  obtain ⟨d, t, ⟨hrest, hbefore⟩, -, ht⟩ := h _ q hq
  obtain ⟨rfl, rfl⟩ : c = d ∧ s = t ++ q.rest := List.cons.inj hrest
  have hlast : q.before = t.getLast?.or (some c) := by
    rw [hbefore, List.getLast?_cons]
    cases t.getLast? <;> rfl
  rw [hlast, hopens.occurrencesFrom_append ht]

/-- What is left behind an occurrence is what is left behind a place where the phrase is read. -/
theorem Phrase.WordFirst.mem_remainders_iff {a : Phrase} (h : a.WordFirst) {s r : List Char} :
    r ∈ remainders a s ↔
      ∃ u x q, s = u ++ x ∧ a.read ⟨u.getLast?, x⟩ = some q ∧ q.rest = r := by
  rw [remainders, occurrences, h.thorough.occurrencesFrom_eq, List.map_filterMap,
    List.mem_filterMap]
  simp only [Option.map_map, Option.map_eq_some_iff, List.mem_range]
  constructor
  · rintro ⟨n, -, q, hq, rfl⟩
    refine ⟨s.take n, s.drop n, q, (List.take_append_drop n s).symm, ?_, rfl⟩
    rwa [placeAt, Option.or_none] at hq
  · rintro ⟨u, x, q, rfl, hq, rfl⟩
    have hx : 0 < x.length := Nat.lt_of_le_of_lt (Nat.zero_le _) (h.takesWord.moves _ q hq)
    refine ⟨u.length, ?_, q, ?_, rfl⟩
    · rw [List.length_append]
      omega
    · rwa [placeAt, List.take_left, List.drop_left, Option.or_none]

/-! ### Counting a word -/

variable {keyword : String}

private theorem Phrase.IsWord.beginsWord (hk : IsWord keyword) :
    (words [keyword]).BeginsWord keyword := by
  intro p q hq
  obtain ⟨hp, hat, w, hw, hrest, hbefore⟩ := read_words_iff.mp hq
  refine ⟨hp, w, q.rest, hrest, hw, ?_⟩
  have hlast := (hk.ends hw).2
  rw [Place.atBoundary, hbefore] at hat
  cases hl : w.getLast? with
  | none => exact absurd hlast (by simp [hl])
  | some c =>
    rw [hl] at hlast hat
    simpa [show isWordChar c = true from hlast] using hat

private theorem Phrase.IsWord.wordFirst (hk : IsWord keyword) : (words [keyword]).WordFirst where
  onBoundary := hk.beginsWord.onBoundary
  takesWord := by
    intro p q hq
    obtain ⟨-, -, w, hw, hbefore⟩ := read_words_iff.mp hq
    refine ⟨w, [], ?_, ne_nil_of_spells hk.1 hw, isWordChar_of_spells hk.2 hw, by simp⟩
    rwa [List.append_nil]

/-- A search for a word finds it at every offset at which it stands, and nowhere else. -/
theorem count_words_eq (hk : Phrase.IsPlainWord keyword) (s : List Char) :
    count (.words [keyword]) s =
      ((List.range s.length).filter (wordAt isWordChar keyword s)).length := by
  rw [count, occurrences, hk.1.wordFirst.thorough.length_occurrencesFrom,
    List.countP_eq_length_filter]
  congr 1
  exact List.filter_congr fun n _ => hk.isSome_read_placeAt s n

/-- A word by itself is found once. -/
theorem count_word (hk : Phrase.IsWord keyword) {w : List Char}
    (hw : spells keyword.toList w = true) : count (.words [keyword]) w = 1 := by
  have hall := isWordChar_of_spells hk.2 hw
  have hread := hk.isSome_read hw none []
  rw [List.append_nil] at hread
  obtain ⟨q, hq⟩ := Option.isSome_iff_exists.mp (hread.trans rfl)
  obtain ⟨c, w, rfl⟩ := List.exists_cons_of_ne_nil (ne_nil_of_spells hk.1 hw)
  have hinside := hk.beginsWord.onBoundary.occurrencesFrom_inside (s := [])
    (fun e he => hall e (List.mem_cons_of_mem c he)) (hall c (List.mem_cons_self ..))
  rw [List.append_nil, occurrencesFrom_nil] at hinside
  rw [count, occurrences, hk.wordFirst.thorough, hinside, hq]
  rfl

/-! ### Counting in parts -/

private theorem Phrase.IsWord.avoids (hk : IsWord keyword) {m : Char} (hm : isWordChar m = false) :
    (words [keyword]).avoids m = true := by
  have hletters : (letters keyword).avoids m = true := by
    refine avoids_all (by simpa using hk.1) ?_
    intro a ha
    obtain ⟨k, hmem, rfl⟩ := List.mem_map.mp ha
    rw [Phrase.avoids, Bool.not_eq_true', Bool.eq_false_iff]
    intro hc
    rw [hk.2 k hmem m hc] at hm
    exact Bool.noConfusion hm
  refine avoids_all (List.cons_ne_nil _ _) ?_
  simp [hletters, Phrase.avoids]

/-- Between two texts of which one ends or begins outside of words no word is found. -/
theorem count_words_append (hk : Phrase.IsWord keyword) {s t : List Char}
    (h : s.getLast?.any isWordChar = false ∨ t.head?.any isWordChar = false) :
    count (.words [keyword]) (s ++ t) =
      count (.words [keyword]) s + count (.words [keyword]) t := by
  have hnil : count (.words [keyword]) [] = 0 := by
    rw [count, occurrences, occurrencesFrom_nil, List.length_nil]
  have hmark : ∀ {m : Char}, isWordChar m = false → ∀ s t, count (.words [keyword]) (s ++ m :: t) =
      count (.words [keyword]) s + count (.words [keyword]) t :=
    fun hm => count_mark hm (hk.avoids hm) hk.wordFirst.takesWord.moves
  rcases h with hs | ht
  · rcases List.eq_nil_or_concat s with rfl | ⟨s, m, rfl⟩
    · rw [List.nil_append, hnil, Nat.zero_add]
    · have hm : isWordChar m = false := by simpa using hs
      rw [List.concat_eq_append, List.append_assoc, List.singleton_append, hmark hm, hmark hm, hnil,
        Nat.add_zero]
  · cases t with
    | nil => rw [List.append_nil, hnil, Nat.add_zero]
    | cons m t =>
      have hm : isWordChar m = false := ht
      rw [hmark hm, ← List.nil_append (m :: t), hmark hm, hnil, Nat.zero_add]

end SqlReview.Search

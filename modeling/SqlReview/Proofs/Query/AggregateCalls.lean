import Mathlib.Algebra.Ring.Nat
import SqlReview.Proofs.Search.MarkBehind
import SqlReview.Query.Aggregate

/-!
# Aggregate calls, name by name

One search looks for all names of aggregate functions at once. Many of the names begin with another
one, so the search has to come back from a name that is there only in part. It still finds what the
searches for the names one by one find together, and this is the number of words that are names and
have a parenthesis behind them: the word at an offset is at most one of the names.
-/

namespace SqlReview.Query

open SqlReview.Text SqlReview.Search

/-! ### Calls at an offset -/

/-- Whether the word that begins at an offset of a text is one of some names and an opening
parenthesis stands behind it, blanks apart. -/
def calledAt (names : List String) (s : List Char) (n : Nat) : Bool :=
  let word := (s.drop n).takeWhile isWordChar
  let rest := (s.drop n).dropWhile isWordChar
  !(s.take n).getLast?.any isWordChar && names.any (fun name => spells name.toList word) &&
    (trimStart rest).head?.any (· == '(')

/-- A call of one of several functions is a call of one of them. -/
theorem calledAt_eq_any (names : List String) (s : List Char) (n : Nat) :
    calledAt names s n = names.any fun name => calledAt [name] s n := by
  simp only [calledAt, List.any_cons, List.any_nil, Bool.or_false]
  generalize (s.take n).getLast?.any isWordChar = before
  generalize (trimStart ((s.drop n).dropWhile isWordChar)).head?.any (· == '(') = behind
  cases before <;> cases behind <;> simp

private theorem opening_not_word : ∀ c, (c == '(') = true → isWordChar c = false := by
  intro c hc
  obtain rfl : c = '(' := beq_iff_eq.mp hc
  decide

private theorem head?_of_opening {s : List Char} (h : (trimStart s).head?.any (· == '(') = true) :
    s.head?.any isWordChar = false := by
  cases s with
  | nil => rfl
  | cons c s =>
    by_cases hc : isBlank c = true
    · exact (solid_isWordChar .none).blank c hc
    · rw [trimStart, List.dropWhile_cons_of_neg hc] at h
      exact opening_not_word c h

variable {name : String}

private theorem isSome_read_callOf_iff {p : Place} : ((callOf name).read p).isSome = true ↔
    ∃ w r, spells name.toList w = true ∧ p.rest = w ++ r ∧
      (trimStart r).head?.any (· == '(') = true := by
  have hread : (callOf name).read p = ((Phrase.letters name).read p).bind
      (Phrase.seq .blanks (.one (· == '('))).read := rfl
  rw [hread, Option.isSome_bind, Option.any_eq_true]
  simp only [Phrase.isSome_read_blanks_one, Phrase.read_letters_iff]
  constructor
  · rintro ⟨q, ⟨w, hw, hbefore⟩, hq⟩
    exact ⟨w, q.rest, hw, hbefore.rest, hq⟩
  · rintro ⟨w, r, hw, hrest, hr⟩
    exact ⟨⟨w.getLast?.or p.before, r⟩, ⟨w, hw, hrest, rfl⟩, hr⟩

/-- At the offsets at which a name is called its call is read. -/
theorem isSome_read_call (hk : Phrase.IsWord name) (s : List Char) (n : Nat) :
    ((Phrase.all [.boundary, callOf name]).read (placeAt none s n)).isSome =
      calledAt [name] s n := by
  have hread := Phrase.isSome_read_boundary_seq (callOf name) (placeAt none s n)
  have hat : ∀ w r, spells name.toList w = true → s.drop n = w ++ r →
      (placeAt none s n).atBoundary = !(s.take n).getLast?.any isWordChar := by
    intro w r hw hs
    obtain ⟨c, w, rfl⟩ := List.exists_cons_of_ne_nil (ne_nil_of_spells hk.1 hw)
    rw [placeAt, hs, Option.or_none]
    exact Place.atBoundary_of_isWordChar (hk.ends hw).1
  refine hread.trans ?_
  rw [Bool.eq_iff_iff, Bool.and_eq_true_iff, isSome_read_callOf_iff]
  simp only [calledAt, List.any_cons, List.any_nil, Bool.or_false, Bool.and_eq_true]
  constructor
  · rintro ⟨hbefore, w, r, hw, hs, hr⟩
    obtain ⟨htake, hdrop⟩ := span_of_head? (isWordChar_of_spells hk.2 hw) (head?_of_opening hr)
    have hs : s.drop n = w ++ r := hs
    rw [hs, htake, hdrop, ← hat w r hw hs]
    exact ⟨⟨hbefore, hw⟩, hr⟩
  · rintro ⟨⟨hbefore, hw⟩, hr⟩
    have hs := (List.takeWhile_append_dropWhile (p := isWordChar) (l := s.drop n)).symm
    rw [← hat _ _ hw hs] at hbefore
    exact ⟨hbefore, _, _, hw, hs, hr⟩

/-! ### Searches for calls -/

/-- A call is a word, and blanks and a parenthesis behind it. -/
theorem takesWord_callOf (hk : Phrase.IsWord name) : (callOf name).TakesWord := by
  have hletters : (Phrase.letters name).Moves := by
    intro p q hq
    obtain ⟨w, hw, hbefore⟩ := Phrase.read_letters_iff.mp hq
    have hlength : 0 < w.length := List.length_pos_iff.mpr (ne_nil_of_spells hk.1 hw)
    rw [hbefore.rest, List.length_append]
    omega
  exact (Phrase.takes_letters hk.2).takesWord hletters (Phrase.takes_blanks_one opening_not_word)

/-- A search for one function finds it at the offsets at which it is called. -/
theorem count_call (hk : Phrase.IsWord name) (s : List Char) :
    count (.all [.boundary, callOf name]) s =
      (List.range s.length).countP (calledAt [name] s) := by
  refine ((takesWord_callOf hk).boundary.thorough.length_occurrencesFrom none s).trans ?_
  exact List.countP_congr fun n _ => by rw [← isSome_read_call hk]; rfl

private theorem isWord_of_mem_aggregateFunctions :
    ∀ name ∈ aggregateFunctions, Phrase.IsWord name := by
  have hchars : ∀ name ∈ aggregateFunctions, name.toList ≠ [] ∧
      ∀ k ∈ name.toList, isWordChar k = true := by decide +kernel
  intro name hname
  exact Phrase.isWord_of_forall (hchars name hname).1 (hchars name hname).2

/-- The search for all functions finds one at the offsets at which any of them is called. -/
theorem aggregateCount_eq_countP (s : List Char) :
    aggregateCount s = (List.range s.length).countP (calledAt aggregateFunctions s) := by
  have htakes : (Phrase.any (aggregateFunctions.map callOf)).TakesWord := by
    apply Phrase.takesWord_any
    intro a ha
    obtain ⟨name, hname, rfl⟩ := List.mem_map.mp ha
    exact takesWord_callOf (isWord_of_mem_aggregateFunctions name hname)
  refine (htakes.boundary.thorough.length_occurrencesFrom none s).trans ?_
  refine List.countP_congr fun n _ => ?_
  rw [Phrase.isSome_read_boundary_seq, Phrase.isSome_read_any, List.any_map, calledAt_eq_any,
    Bool.and_eq_true_iff, List.any_eq_true, List.any_eq_true]
  constructor
  · rintro ⟨hat, name, hname, hread⟩
    refine ⟨name, hname, ?_⟩
    rw [← isSome_read_call (isWord_of_mem_aggregateFunctions name hname)]
    exact (Phrase.isSome_read_boundary_seq _ _).trans (by rw [hat]; exact hread)
  · rintro ⟨name, hname, hcalled⟩
    rw [← isSome_read_call (isWord_of_mem_aggregateFunctions name hname)] at hcalled
    have hread := (Phrase.isSome_read_boundary_seq _ _).symm.trans hcalled
    obtain ⟨hat, hread⟩ := Bool.and_eq_true_iff.mp hread
    exact ⟨hat, name, hname, hread⟩

/-! ### Names one by one -/

private theorem countP_or_of_disjoint {β : Type} {p q : β → Bool}
    (h : ∀ x, p x = true → q x = false) (xs : List β) :
    xs.countP (fun x => p x || q x) = xs.countP p + xs.countP q := by
  induction xs with
  | nil => rfl
  | cons x xs ih =>
    rw [List.countP_cons, List.countP_cons, List.countP_cons, ih]
    cases hx : p x with
    | true =>
      rw [h x hx]
      simp only [Bool.or_false, if_true, Bool.false_eq_true, if_false]
      omega
    | false => rw [Bool.false_or, if_neg Bool.false_ne_true, Nat.add_zero, Nat.add_assoc]

private theorem sum_countP_eq {α β : Type} {l : List α} {p : α → β → Bool}
    (h : l.Pairwise fun a b => ∀ x, p a x = true → p b x = false) (xs : List β) :
    (l.map fun a => xs.countP (p a)).sum = xs.countP fun x => l.any (p · x) := by
  induction l with
  | nil => simp
  | cons a l ih =>
    obtain ⟨ha, hl⟩ := List.pairwise_cons.mp h
    have hdisjoint : ∀ x, p a x = true → l.any (p · x) = false := by
      intro x hx
      rw [List.any_eq_false]
      intro b hb
      rw [ha b hb x hx]
      exact Bool.false_ne_true
    rw [List.map_cons, List.sum_cons, ih hl, ← countP_or_of_disjoint hdisjoint]
    rfl

/-- No two names of aggregate functions are the same word in different cases. -/
theorem nodup_aggregateFunctions :
    (aggregateFunctions.map fun name => name.toList.map Phrase.smallLetter).Nodup := by
  decide +kernel

private theorem pairwise_calledAt (s : List Char) : aggregateFunctions.Pairwise fun name other =>
    ∀ n, calledAt [name] s n = true → calledAt [other] s n = false := by
  refine (List.pairwise_map.mp nodup_aggregateFunctions).imp fun hne n hname => ?_
  rw [Bool.eq_false_iff]
  intro hother
  simp only [calledAt, List.any_cons, List.any_nil, Bool.or_false, Bool.and_eq_true] at hname hother
  exact hne <| (Phrase.map_smallLetter_eq_of_spells hname.1.2).trans
    (Phrase.map_smallLetter_eq_of_spells hother.1.2).symm

/-! ### Going back -/

private theorem sole_blanks_opening : (Phrase.seq .blanks (.one (· == '('))).Sole :=
  Phrase.sole_blanks_one fun _ hc => beq_of_isBlank hc (by decide)

private theorem sole_callOf (hne : name.toList ≠ []) : (callOf name).Sole :=
  (Phrase.sole_letters hne).seq sole_blanks_opening

/-- The search for one name and the parenthesis behind it never has to go back. -/
theorem direct_call (hne : name.toList ≠ []) : (Phrase.all [.boundary, callOf name]).Direct :=
  Phrase.sole_boundary.direct_seq (sole_callOf hne).direct

/-- Nor has the search for the calls of all names. -/
theorem direct_aggregateCall : aggregateCall.Direct := by
  refine Phrase.sole_boundary.direct_seq (Phrase.direct_any fun a ha => ?_)
  obtain ⟨name, hname, rfl⟩ := List.mem_map.mp ha
  exact (sole_callOf (isWord_of_mem_aggregateFunctions name hname).1).direct

/-- The search for any of the names, with blanks and a parenthesis behind the one that is found,
goes back to the call that is read without going back. -/
theorem head?_readings_aggregateCall (p : Place) :
    ((Phrase.all [.boundary, .any (aggregateFunctions.map .letters), .blanks,
      .one (· == '(')]).readings p).head? = aggregateCall.read p := by
  have hsole : ∀ a ∈ aggregateFunctions.map Phrase.letters, a.Sole := by
    intro a ha
    obtain ⟨name, hname, rfl⟩ := List.mem_map.mp ha
    exact Phrase.sole_letters (isWord_of_mem_aggregateFunctions name hname).1
  have hcalls := Phrase.head?_readings_any_seq hsole sole_blanks_opening p
  rw [List.map_map] at hcalls
  change ((if p.atBoundary then [p] else []).flatMap _).head? = (Phrase.boundary.read p).bind _
  rw [Phrase.read_boundary]
  split
  · rw [List.flatMap_cons, List.flatMap_nil, List.append_nil]
    exact hcalls
  · rfl

/-- The number of aggregate calls of a text is the sum, over the names, of the number of times that
a search for the name and the parenthesis behind it finds them, and it is the number of words of
the text that are one of the names and have the parenthesis behind them. The search for all names at
once goes back from a name that is there only in part, and comes to the same readings. -/
theorem aggregateCount_eq_sum_and_words (s : List Char) :
    aggregateCount s =
        (aggregateFunctions.map fun name => count (.all [.boundary, callOf name]) s).sum ∧
      aggregateCount s = ((List.range s.length).filter (calledAt aggregateFunctions s)).length ∧
      (∀ name ∈ aggregateFunctions, (Phrase.all [.boundary, callOf name]).Direct) ∧
      ∀ p : Place, ((Phrase.all [.boundary, .any (aggregateFunctions.map .letters), .blanks,
        .one (· == '(')]).readings p).head? = aggregateCall.read p := by
  refine ⟨?_, ?_, ?_, head?_readings_aggregateCall⟩
  · have hcounts : (aggregateFunctions.map fun name => count (.all [.boundary, callOf name]) s) =
        aggregateFunctions.map fun name =>
          (List.range s.length).countP (calledAt [name] s) :=
      List.map_congr_left fun name hname =>
        count_call (isWord_of_mem_aggregateFunctions name hname) s
    rw [hcounts, sum_countP_eq (pairwise_calledAt s), aggregateCount_eq_countP]
    exact List.countP_congr fun n _ => by rw [calledAt_eq_any]
  · rw [aggregateCount_eq_countP, List.countP_eq_length_filter]
  · intro name hname
    exact direct_call (isWord_of_mem_aggregateFunctions name hname).1

/-- Two calls, one of a name that begins with another name, and a word that only begins with one. -/
theorem aggregateCount_of_longer_names :
    let s := "uniqExact (sum(a)) + uniq_(b)".toList
    "uniqExact" ∈ aggregateFunctions ∧ (Phrase.all [.boundary, callOf "uniqExact"]).Direct ∧
      aggregateCount s = 2 := by
  intro s
  have hmem : "uniqExact" ∈ aggregateFunctions := by decide
  obtain ⟨-, hwords, hdirect, -⟩ := aggregateCount_eq_sum_and_words s
  exact ⟨hmem, hdirect _ hmem, hwords.trans (by decide +kernel)⟩

end SqlReview.Query

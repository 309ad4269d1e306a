import SqlReview.Proofs.Search.Steady

/-!
# What a phrase takes

The characters between the place at which a phrase begins and the place at which it ends. A phrase
that takes characters of a class only begins with none of another class, so a search for it passes
over texts that have none of the class.
-/

namespace SqlReview.Search

open SqlReview.Text

/-- Whether the place `q` comes after the characters `t` from the place `p` on. -/
structure Place.Before (t : List Char) (p q : Place) : Prop where
  rest : p.rest = t ++ q.rest
  before : q.before = t.getLast?.or p.before

/-- No text is between a place and itself. -/
theorem Place.Before.refl (p : Place) : Before [] p p :=
  ⟨rfl, rfl⟩

/-- What is between two places and what is between the second and a third is between the outer two.
-/
theorem Place.Before.trans {t u : List Char} {p q r : Place} (h : Before t p q)
    (h' : Before u q r) : Before (t ++ u) p r where
  rest := by rw [h.rest, h'.rest, List.append_assoc]
  before := by rw [h'.before, h.before, List.getLast?_append, Option.or_assoc]

/-- No text is between a place and itself only. -/
theorem Place.before_nil_iff {p q : Place} : Before [] p q ↔ p = q := by
  obtain ⟨before, rest⟩ := p
  obtain ⟨before', rest'⟩ := q
  constructor
  · rintro ⟨hrest, hbefore⟩
    obtain rfl : rest = rest' := hrest
    obtain rfl : before' = before := hbefore
    rfl
  · rintro ⟨⟩
    exact .refl _

/-- A text between two places goes through the place between any two parts of it. -/
theorem Place.before_append_iff {t u : List Char} {p q : Place} :
    Before (t ++ u) p q ↔ ∃ r, Before t p r ∧ Before u r q := by
  constructor
  · rintro ⟨hrest, hbefore⟩
    refine ⟨⟨t.getLast?.or p.before, u ++ q.rest⟩, ⟨?_, rfl⟩, rfl, ?_⟩
    · rw [hrest, List.append_assoc]
    · rw [hbefore, List.getLast?_append, Option.or_assoc]
  · rintro ⟨r, ht, hu⟩
    exact ht.trans hu

/-- A text between two places goes through the place after its first character. -/
theorem Place.before_cons_iff {c : Char} {t : List Char} {p q : Place} :
    Before (c :: t) p q ↔ ∃ r, Before [c] p r ∧ Before t r q :=
  Place.before_append_iff (t := [c])

namespace Phrase

/-- Whether a phrase takes characters of a class only. -/
def Takes (cls : Char → Bool) (a : Phrase) : Prop :=
  ∀ p q : Place, a.read p = some q → ∃ t, p.Before t q ∧ ∀ c ∈ t, cls c = true

variable {a b : Phrase} {cls cls' : Char → Bool}

/-- One character of a narrower class is taken from the class. -/
theorem takes_one (h : ∀ c, cls' c = true → cls c = true) : Takes cls (.one cls') := by
  intro p q hq
  obtain ⟨before, rest⟩ := p
  cases rest with
  | nil => exact absurd hq (by simp)
  | cons c s =>
    rw [read_one_cons] at hq
    split at hq
    · next hc =>
      obtain rfl := Option.some.inj hq
      refine ⟨[c], ⟨rfl, rfl⟩, ?_⟩
      intro d hd
      obtain rfl := List.mem_singleton.mp hd
      exact h d hc
    · exact absurd hq (by simp)

/-- A run of a narrower class is taken from the class. -/
theorem takes_run (h : ∀ c, cls' c = true → cls c = true) : Takes cls (.run cls') := by
  intro p q hq
  obtain rfl := Option.some.inj hq
  refine ⟨p.rest.takeWhile cls', ⟨List.takeWhile_append_dropWhile.symm, rfl⟩, ?_⟩
  intro c hc
  exact h c (List.all_eq_true.mp List.all_takeWhile c hc)

/-- Two phrases one after the other take characters of a class when both do. -/
theorem Takes.seq (ha : Takes cls a) (hb : Takes cls b) : Takes cls (.seq a b) := by
  intro p q hq
  rw [read_seq] at hq
  obtain ⟨r, hr, hq⟩ := Option.bind_eq_some_iff.mp hq
  obtain ⟨t, ht, hall⟩ := ha p r hr
  obtain ⟨u, hu, hall'⟩ := hb r q hq
  refine ⟨t ++ u, ht.trans hu, ?_⟩
  intro c hc
  exact (List.mem_append.mp hc).elim (hall c) (hall' c)

/-- The first of two phrases that is there takes characters of a class when both do. -/
theorem Takes.either (ha : Takes cls a) (hb : Takes cls b) : Takes cls (.either a b) := by
  intro p q hq
  rw [read_either] at hq
  rcases Option.or_eq_some_iff.mp hq with hq | ⟨-, hq⟩
  · exact ha p q hq
  · exact hb p q hq

/-- The beginning or end of a word takes no characters. -/
theorem takes_boundary : Takes cls .boundary := by
  intro p q hq
  rw [read_boundary] at hq
  split at hq
  · obtain rfl := Option.some.inj hq
    exact ⟨[], .refl p, by simp⟩
  · exact absurd hq (by simp)

/-- An optional part takes characters of a class when the part does. -/
theorem Takes.opt (ha : Takes cls a) : Takes cls (.opt a) := by
  intro p q hq
  rw [read_opt, Option.some_inj] at hq
  cases hr : a.read p with
  | none =>
    rw [hr, Option.getD_none] at hq
    exact ⟨[], hq ▸ .refl p, by simp⟩
  | some r =>
    rw [hr, Option.getD_some] at hq
    exact ha p q (hq ▸ hr)

/-- Phrases one after the other take characters of a class when all do. -/
theorem takes_all {l : List Phrase} (h : ∀ a ∈ l, Takes cls a) : Takes cls (.all l) :=
  all_of (takes_run fun _ hc => absurd hc Bool.false_ne_true) Takes.seq h

/-- The first of several phrases that is there takes characters of a class when all do. -/
theorem takes_any {l : List Phrase} (h : ∀ a ∈ l, Takes cls a) : Takes cls (.any l) :=
  any_of (takes_one fun _ hc => absurd hc Bool.false_ne_true) Takes.either h

/-- The letters of a keyword are taken from a class that holds both cases of them. -/
theorem takes_letters {keyword : String}
    (h : ∀ k ∈ keyword.toList, ∀ c, foldsTo k c = true → cls c = true) :
    Takes cls (letters keyword) := by
  apply takes_all
  intro a ha
  obtain ⟨k, hk, rfl⟩ := List.mem_map.mp ha
  exact takes_one (h k hk)

/-! ### The first character -/

/-- Whether a phrase is read only where a character of a class stands. -/
def Opens (cls : Char → Bool) (a : Phrase) : Prop :=
  ∀ p q : Place, a.read p = some q → ∃ c s, p.rest = c :: s ∧ cls c = true

/-- A phrase that takes something, all of a class, is read where a character of it stands. -/
theorem Takes.opens (h : Takes cls a) (hmoves : a.Moves) : Opens cls a := by
  intro p q hq
  obtain ⟨t, ht, hall⟩ := h p q hq
  have hlength := hmoves p q hq
  rw [ht.rest, List.length_append] at hlength
  cases t with
  | nil => exact absurd hlength (by simp)
  | cons c t => exact ⟨c, t ++ q.rest, ht.rest, hall c (List.mem_cons_self ..)⟩

/-- Two phrases one after the other begin as the first does. -/
theorem Opens.seq (ha : Opens cls a) : Opens cls (.seq a b) := by
  intro p q hq
  rw [read_seq] at hq
  obtain ⟨r, hr, -⟩ := Option.bind_eq_some_iff.mp hq
  exact ha p r hr

/-- Phrases one after the other begin as the first does. -/
theorem Opens.all (ha : Opens cls a) (l : List Phrase) : Opens cls (.all (a :: l)) :=
  all_cons_of Opens.seq ha l

/-- A phrase at the beginning of a word begins as it does without. -/
theorem Opens.boundary (hb : Opens cls b) : Opens cls (.seq .boundary b) := by
  intro p q hq
  rw [read_seq, read_boundary] at hq
  split at hq
  · exact hb p q hq
  · exact absurd hq (by simp)

/-- One character of a class begins with it. -/
theorem opens_one : Opens cls (.one cls) :=
  (takes_one fun _ hc => hc).opens moves_one

/-- Phrases one after the other are read only where the class of the first one stands. -/
theorem Opens.read_eq_none (ha : Opens cls a) {p : Place} {c : Char} {s : List Char}
    (hp : p.rest = c :: s) (hc : cls c = false) : a.read p = none := by
  rw [Option.eq_none_iff_forall_ne_some]
  intro q hq
  obtain ⟨d, u, hd, hcls⟩ := ha p q hq
  rw [hp] at hd
  obtain rfl := (List.cons.inj hd).1
  rw [hc] at hcls
  exact Bool.false_ne_true hcls

/-- A search passes over characters at none of which the phrase is read. -/
theorem Opens.occurrencesFrom_append (ha : Opens cls a) {t : List Char}
    (ht : ∀ c ∈ t, cls c = false) (before : Option Char) (s : List Char) :
    occurrencesFrom a before (t ++ s) = occurrencesFrom a (t.getLast?.or before) s := by
  induction t generalizing before with
  | nil => rfl
  | cons c t ih =>
    have hread : a.read ⟨before, c :: (t ++ s)⟩ = none :=
      ha.read_eq_none rfl (ht c (List.mem_cons_self ..))
    rw [List.cons_append, occurrencesFrom, hread,
      ih (fun d hd => ht d (List.mem_cons_of_mem c hd)), List.getLast?_cons]
    cases t.getLast? <;> rfl

/-! ### Marks that no phrase takes -/

private theorem exists_append_of_mark {t s u v : List Char} {m : Char}
    (ht : ∀ c ∈ t, cls c = true) (hm : cls m = false) (h : s ++ m :: u = t ++ v) :
    ∃ s', s = t ++ s' ∧ v = s' ++ m :: u := by
  induction t generalizing s with
  | nil => exact ⟨s, rfl, h.symm⟩
  | cons c t ih =>
    cases s with
    | nil =>
      obtain rfl := (List.cons.inj h).1
      rw [ht m (List.mem_cons_self ..)] at hm
      exact absurd hm (by decide)
    | cons d s =>
      obtain ⟨rfl, htail⟩ := List.cons.inj h
      obtain ⟨s', rfl, hv⟩ := ih (fun e he => ht e (List.mem_cons_of_mem d he)) htail
      exact ⟨s', rfl, hv⟩

/-- A search comes to every mark that the phrase does not take. -/
theorem Takes.occurrencesFrom_append (ha : Takes cls a) (hmoves : a.Moves) {m : Char}
    (hm : cls m = false) (before : Option Char) (s u : List Char) :
    ∃ os, occurrencesFrom a before (s ++ m :: u) = os ++ occurrencesFrom a (some m) u := by
  generalize htext : s ++ m :: u = x
  -- The mark is not taken, so what follows an occurrence in front of it has the mark in it still.
  induction before, x using hmoves.search_induction generalizing s with
  | nil before => exact absurd htext (by simp)
  | found before c x q hq ih =>
    obtain ⟨t, ht, hall⟩ := ha _ q hq
    obtain ⟨s', -, hrest⟩ := exists_append_of_mark hall hm (htext.trans ht.rest)
    obtain ⟨os, hos⟩ := ih s' hrest.symm
    exact ⟨⟨⟨before, c :: x⟩, q⟩ :: os, by
      rw [occurrencesFrom_of_read hmoves hq, hos, List.cons_append]⟩
  | passed before c x hq ih =>
    rw [occurrencesFrom_of_read_eq_none hq]
    cases s with
    | nil =>
      obtain ⟨rfl, rfl⟩ := List.cons.inj htext
      exact ⟨[], rfl⟩
    | cons d s =>
      obtain ⟨rfl, htail⟩ := List.cons.inj htext
      exact ih s htail

end Phrase

end SqlReview.Search

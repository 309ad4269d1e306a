import SqlReview.Proofs.Query.Join
import SqlReview.Proofs.Query.Prologue
import SqlReview.Proofs.Search.Direct
import SqlReview.Proofs.Search.Offset

/-!
# Modifiers make no joins

A join is read without going back, since a word that can be a modifier cannot be anything else that
a join may go on with. There is one join for each offset at which the word `JOIN` stands, whatever
modifiers stand before it: in any order, in any number, in any case.
-/

namespace SqlReview.Query

open SqlReview.Text SqlReview.Search Phrase

/-! ### Reading without going back -/

/-- The words with which a modified `JOIN` may begin. -/
def joinWords (groups : List (List String)) : List String :=
  groups.flatten ++ ["JOIN"]

/-- Whether a word is in capitals and has letters. -/
def IsCapitalized (keyword : String) : Prop :=
  keyword.toList ≠ [] ∧ ∀ k ∈ keyword.toList, k ∈ capitals

/-- Whether a keyword is in capitals is told from its characters. -/
instance : DecidablePred IsCapitalized := fun keyword =>
  @instDecidableAnd _ _ inferInstance
    (List.decidableBAll (fun k => k ∈ capitals) keyword.toList)

/-- Whether no two of several words can stand at the same place. -/
structure AreDistinct (keywords : List String) : Prop where
  capitals : ∀ k ∈ keywords, IsCapitalized k
  clash : keywords.Pairwise fun k l => clash k.toList l.toList = true

private theorem areDistinct_joinWords : AreDistinct (joinWords joinModifiers) where
  capitals := by decide
  clash := by decide

variable {groups : List (List String)} {group keywords others : List String} {p : Place}

private theorem AreDistinct.append (h : AreDistinct (keywords ++ others)) :
    AreDistinct keywords ∧ AreDistinct others ∧
      ∀ k ∈ keywords, ∀ l ∈ others, Apart (letters k) (letters l) := by
  obtain ⟨hkeywords, hothers, hcross⟩ := List.pairwise_append.mp h.clash
  refine ⟨⟨fun k hk => h.capitals k (List.mem_append_left _ hk), hkeywords⟩,
    ⟨fun k hk => h.capitals k (List.mem_append_right _ hk), hothers⟩, fun k hk l hl => ?_⟩
  exact apart_letters (h.capitals k (List.mem_append_left _ hk)).2
    (h.capitals l (List.mem_append_right _ hl)).2 (hcross k hk l hl)

private theorem joinWords_cons (group : List String) (groups : List (List String)) :
    joinWords (group :: groups) = group ++ joinWords groups :=
  List.append_assoc ..

private theorem AreDistinct.sole (h : AreDistinct group) : Sole (any (group.map letters)) := by
  refine sole_any ?_ ?_
  · intro a ha
    obtain ⟨k, hk, rfl⟩ := List.mem_map.mp ha
    exact sole_letters (h.capitals k hk).1
  · rw [List.pairwise_map]
    refine h.clash.imp_of_mem fun hk hl hclash => ?_
    exact apart_letters (h.capitals _ hk).2 (h.capitals _ hl).2 hclash

/-- A modified `JOIN` is read only where one of its words stands. -/
theorem exists_of_read_modified (h : AreDistinct (joinWords groups)) {q : Place}
    (hq : (modified groups).read p = some q) :
    ∃ k ∈ joinWords groups, ((letters k).read p).isSome = true := by
  induction groups with
  | nil =>
    obtain ⟨r, hr, -⟩ := Option.bind_eq_some_iff.mp hq
    exact ⟨"JOIN", List.mem_singleton_self _, by rw [hr]; rfl⟩
  | cons group groups ih =>
    rw [joinWords_cons] at h ⊢
    obtain ⟨-, hgroups, -⟩ := h.append
    rw [modified_cons, read_seq] at hq
    change (some ((((any (group.map letters)).read p).bind gap.read).getD p)).bind _ = _ at hq
    rw [Option.bind_some] at hq
    cases hm : (any (group.map letters)).read p with
    | none =>
      rw [hm] at hq
      obtain ⟨k, hk, hread⟩ := ih hgroups hq
      exact ⟨k, List.mem_append_right _ hk, hread⟩
    | some m =>
      obtain ⟨a, ha, hread⟩ := exists_mem_of_read_any hm
      obtain ⟨k, hk, rfl⟩ := List.mem_map.mp ha
      exact ⟨k, List.mem_append_left _ hk, by rw [hread]; rfl⟩

private theorem refuses_modified (h : AreDistinct (joinWords groups)) :
    (modified groups).Refuses := by
  intro p hp
  rw [Option.eq_none_iff_forall_ne_some]
  intro q hq
  obtain ⟨k, hk, hread⟩ := exists_of_read_modified h hq
  obtain ⟨hne, hcapitals⟩ := h.capitals k hk
  have hsolid : ∀ c ∈ capitals, isBlank c = false := by decide
  have hsought := sought_letters (f := .none) ⟨hne, fun c hc => hsolid c (hcapitals c hc)⟩
  rw [hsought.refuses p hp] at hread
  exact absurd hread (by simp)

private theorem apart_modified (h : AreDistinct (joinWords groups))
    (hcross : ∀ k ∈ group, ∀ l ∈ joinWords groups, Apart (letters k) (letters l)) :
    Apart (.seq (any (group.map letters)) gap) (modified groups) := by
  intro p hp
  obtain ⟨r, hr⟩ := Option.isSome_iff_exists.mp hp
  obtain ⟨m, hm, -⟩ := Option.bind_eq_some_iff.mp hr
  obtain ⟨a, ha, hread⟩ := exists_mem_of_read_any hm
  obtain ⟨k, hk, rfl⟩ := List.mem_map.mp ha
  rw [Option.eq_none_iff_forall_ne_some]
  intro q hq
  obtain ⟨l, hl, hread'⟩ := exists_of_read_modified h hq
  rw [hcross k hk l hl p (by rw [hread]; rfl)] at hread'
  exact absurd hread' (by simp)

/-- A modified `JOIN` is read without going back: where a modifier is followed by a gap, less of the
gap would leave a blank, and without the modifier its word would be in the way. -/
theorem direct_modified (h : AreDistinct (joinWords groups)) : Direct (modified groups) := by
  induction groups with
  | nil => exact (sole_letters (by decide)).direct_seq sole_boundary.direct
  | cons group groups ih =>
    rw [joinWords_cons] at h
    obtain ⟨hgroup, hgroups, hcross⟩ := h.append
    have hdirect : Direct (.seq (any (group.map letters)) gap) :=
      hgroup.sole.direct_seq (direct_atLeastOne isBlank)
    have hfirst : FirstBefore (.seq (any (group.map letters)) gap) (modified groups) :=
      (hgroup.sole.firstBefore _).seq (refuses_modified hgroups).firstBefore_gap
    rw [modified_cons]
    exact (hfirst.opt hdirect (apart_modified hgroups hcross)).direct_seq (ih hgroups)

/-- A join is read without going back. -/
theorem direct_join : join.Direct :=
  sole_boundary.direct_seq (direct_modified areDistinct_joinWords)

/-! ### Counting joins -/

private theorem isPlainWord_join : IsPlainWord "JOIN" :=
  ⟨isWord_of_forall (by decide) (by decide), by decide⟩

/-- Words that may modify a join one after the other, in any case, with a gap behind each. -/
inductive ModifierRun : List Char → Prop
  | nil : ModifierRun []
  | cons (keyword : String) (w gap : List Char) {s : List Char} :
      keyword ∈ joinModifiers.flatten → sameText w keyword.toList = true →
      isBlankText gap = true → gap ≠ [] → ModifierRun s → ModifierRun (w ++ (gap ++ s))

private theorem ModifierRun.getLast? {run : List Char} (h : ModifierRun run) :
    run.getLast?.any isWordChar = false := by
  induction h with
  | nil => rfl
  | @cons keyword w gap s _ _ hgap hne _ ih =>
    have hlast : isWordChar (gap.getLast hne) = false :=
      (solid_isWordChar .none).blank _ (List.all_eq_true.mp hgap _ (List.getLast_mem hne))
    rw [List.getLast?_append, List.getLast?_append, List.getLast?_eq_some_getLast hne]
    cases hs : s.getLast? with
    | none => exact hlast
    | some c =>
      rw [hs] at ih
      exact ih

private theorem ModifierRun.foldsTo_eq_false {run : List Char} (h : ModifierRun run) :
    ∀ c ∈ run, foldsTo 'J' c = false := by
  induction h with
  | nil => simp
  | @cons keyword w gap s hkeyword hw hgap _ _ ih =>
    have hplain : ∀ keyword ∈ joinModifiers.flatten, ∀ k ∈ keyword.toList,
        (!foldsTo 'J' k) = true := by decide
    have hcls : IgnoresCase fun c => !foldsTo 'J' c := by decide
    have hword : ∀ c ∈ w, (!foldsTo 'J' c) = true :=
      forall_mem_of_sameText hcls (hplain keyword hkeyword) hw
    intro c hc
    rcases List.mem_append.mp hc with hc | hc
    · simpa using hword c hc
    rcases List.mem_append.mp hc with hc | hc
    · exact (solid_foldsTo (f := .none) (by decide)).blank c (List.all_eq_true.mp hgap c hc)
    · exact ih c hc

private theorem ModifierRun.count_eq {run : List Char} (h : ModifierRun run) :
    count (words ["JOIN"]) run = 0 := by
  have hopens : Opens (foldsTo 'J') (words ["JOIN"]) :=
    (opens_one.all _).seq (b := boundary).boundary
  have hnone := hopens.occurrencesFrom_append h.foldsTo_eq_false none []
  rw [List.append_nil, occurrencesFrom_nil] at hnone
  rw [count, occurrences, hnone, List.length_nil]

/-- A search for joins has no need to go back, and there is one join for each offset at which the
word `JOIN` stands. Whatever modifiers stand before it, a `JOIN` is one join more than those in the
text before the modifiers and those in the text behind it. -/
theorem joins_are_words :
    (∀ p, (join.readings p).head? = join.read p) ∧
      (∀ s, joinCount s = ((List.range s.length).filter (wordAt isWordChar "JOIN" s)).length) ∧
      ∀ p run j q : List Char, p.getLast?.any isWordChar = false → ModifierRun run →
        sameText j "JOIN".toList = true → q.head?.any isWordChar = false →
        joinCount (p ++ (run ++ (j ++ q))) = joinCount p + 1 + joinCount q := by
  have hword := isPlainWord_join.1
  refine ⟨direct_join, ?_, ?_⟩
  · intro s
    rw [joinCount_eq_count, count_words_eq isPlainWord_join]
  · intro p run j q hp hrun hj hq
    rw [← spells_eq_sameText isPlainWord_join.2] at hj
    simp only [joinCount_eq_count]
    rw [count_words_append hword (.inl hp), count_words_append hword (.inl hrun.getLast?),
      count_words_append hword (.inr hq), hrun.count_eq, count_word hword hj]
    omega

/-- Modifiers in an order of their own before one `JOIN` between two others. -/
theorem joins_after_modifiers :
    let p := "a JOIN b ".toList
    let run := "ouTer\tLEFT  any ALL GLOBAL ".toList
    let q := "(c) CROSS JOIN d".toList
    (p.getLast?.any isWordChar = false ∧ ModifierRun run ∧
        sameText "Join".toList "JOIN".toList = true ∧ q.head?.any isWordChar = false) ∧
      joinCount (p ++ (run ++ ("Join".toList ++ q))) = joinCount p + 1 + joinCount q := by
  intro p run q
  have hp : p.getLast?.any isWordChar = false := by decide
  have hq : q.head?.any isWordChar = false := by decide
  have hj : sameText "Join".toList "JOIN".toList = true := by decide
  have hrun : ModifierRun run :=
    .cons "OUTER" "ouTer".toList "\t".toList (by decide) (by decide) (by decide) (by decide) <|
    .cons "LEFT" "LEFT".toList "  ".toList (by decide) (by decide) (by decide) (by decide) <|
    .cons "ANY" "any".toList " ".toList (by decide) (by decide) (by decide) (by decide) <|
    .cons "ALL" "ALL".toList " ".toList (by decide) (by decide) (by decide) (by decide) <|
    .cons "GLOBAL" "GLOBAL".toList " ".toList (by decide) (by decide) (by decide) (by decide) .nil
  exact ⟨⟨hp, hrun, hj, hq⟩, joins_are_words.2.2 p run _ q hp hrun hj hq⟩

end SqlReview.Query

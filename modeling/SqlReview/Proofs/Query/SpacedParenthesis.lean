import Mathlib.Data.List.Perm.Subperm
import SqlReview.Proofs.Query.SpacedItems
import SqlReview.Proofs.Query.TableName

/-!
# A space before a parenthesis

A space before an opening parenthesis in the code of a statement changes none of its metrics but
the number of tables, and of the tables only those that an item of a list or a whole list gains.
-/

namespace SqlReview.Query

open SqlReview.Text SqlReview.Lexical SqlReview.Search

/-! ### Comments and literals -/

/-- Text of the code without marks may stand between two texts that are read each on its own. -/
theorem blankFrom_removeComments_append (filled : Char → Bool) {p w : List Char}
    (hp : Region.code.after p = .code)
    (hw : ∀ c ∈ w, isQuote c = false ∧ c ≠ '-' ∧ c ≠ '/' ∧ c ≠ '*') (hne : w ≠ []) (q : List Char) :
    blankFrom filled none (removeComments (p ++ (w ++ q))) =
      blankFrom filled none (removeComments p) ++
        (w ++ blankFrom filled none (removeComments q)) := by
  have hhead : ∀ m, m = '-' ∨ m = '*' → (w ++ q).head? ≠ some m := by
    obtain ⟨c, w, rfl⟩ := List.exists_cons_of_ne_nil hne
    obtain ⟨-, hdash, -, hstar⟩ := hw c (List.mem_cons_self ..)
    rintro m (rfl | rfl) h
    · exact hdash (Option.some.inj h)
    · exact hstar (Option.some.inj h)
  have hcode : ∀ v : List Char, (∀ c ∈ v, isQuote c = false ∧ c ≠ '-' ∧ c ≠ '/' ∧ c ≠ '*') →
      blankFrom filled none (removeComments (v ++ q)) =
        v ++ blankFrom filled none (removeComments q) := by
    intro v hv
    induction v with
    | nil => rfl
    | cons c v ih =>
      obtain ⟨hquote, hdash, hslash, -⟩ := hv c (List.mem_cons_self ..)
      have hopens : ¬ opensComment c (v ++ q) := by
        rintro (⟨hc, -⟩ | ⟨hc, -⟩)
        · exact hdash hc
        · exact hslash hc
      have hrest := ih fun d hd => hv d (List.mem_cons_of_mem c hd)
      rw [List.cons_append, removeComments, removeFrom_code_cons hopens, Region.afterCode,
        if_neg (by simp [hquote]), blankFrom_cons filled _ hquote]
      exact congrArg (c :: ·) hrest
  have happend : removeComments (p ++ (w ++ q)) = removeComments p ++ removeComments (w ++ q) :=
    removeFrom_append (r := .code) trivial p (hhead '-' (.inl rfl)) (hhead '*' (.inr rfl)) hp
  rw [happend, ← hcode w hw]
  exact blankFrom_removeFrom_append filled (r := .code) trivial p _ hp

/-! ### Tables -/

/-- The name of a table holds no parenthesis. -/
theorem opening_not_mem_of_tableName? {raw name : List Char} (h : tableName? raw = some name) :
    '(' ∉ name := by
  unfold tableName? at h
  split at h
  · exact absurd h (by simp)
  · next hopen =>
    simp only at h
    split at h
    · exact absurd h (by simp)
    · obtain rfl := Option.some.inj h
      rw [mem_lower (by decide) (by decide) (by decide), List.mem_filter]
      intro hmem
      exact hopen (List.contains_iff_mem.mpr hmem.1)

private theorem opening_not_mem_of_partName? {part name : List Char}
    (h : partName? part = some name) : '(' ∉ name := by
  obtain ⟨w, -, hname⟩ := Option.bind_eq_some_iff.mp h
  exact opening_not_mem_of_tableName? hname

private theorem opening_not_mem_of_gained {p q name : List Char} (h : name ∈ gainedNames p q) :
    '(' ∉ name := by
  rcases List.mem_append.mp h with h | h
  · split at h
    · obtain ⟨part, -, hname⟩ := List.mem_filterMap.mp h
      exact opening_not_mem_of_partName? hname
    · exact absurd h List.not_mem_nil
  · obtain ⟨u, -, hname⟩ := List.mem_filterMap.mp h
    unfold endItem? at hname
    split at hname
    · obtain ⟨part, -, hpart⟩ := Option.bind_eq_some_iff.mp hname
      exact opening_not_mem_of_partName? hpart
    · exact absurd hname (by simp)

/-- The names after a keyword and of items, functions and other names that name no table left
out. -/
def foundNames (s : List Char) : List (List Char) :=
  (namesAfter "FROM" s ++ namesAfter "JOIN" s).filterMap tableName? ++
    (itemsByList s).filterMap partName?

/-- A table is a name that is found and not bound. -/
theorem mem_tables_found {s name : List Char} {bound : List (List Char)} :
    name ∈ tables s bound ↔ name ∉ bound ∧ name ∈ foundNames s := by
  have hnames : foundNames s = (namesAfter "FROM" s ++ namesAfter "JOIN" s ++
      (itemsByList s).filterMap firstWord?).filterMap tableName? := by
    rw [List.filterMap_append, List.filterMap_filterMap]
    rfl
  rw [mem_tables_by_list, hnames]

/-- With the space the names that are found without it and the names that are gained are found. -/
theorem mem_foundNames_space (p q name : List Char) :
    name ∈ foundNames (p ++ ' ' :: '(' :: q) ↔
      name ∈ foundNames (p ++ '(' :: q) ∨ name ∈ gainedNames p q := by
  have hloosened := Loosened.insert p q
  rw [foundNames, foundNames, ← namesAfter_loosened (by decide) hloosened,
    ← namesAfter_loosened (by decide) hloosened, List.mem_append, List.mem_append,
    mem_itemsByList_space, or_assoc]

/-- With the space the tables are those without it and the names that are gained and not bound. -/
theorem mem_tables_space (p q name : List Char) :
    name ∈ tables (p ++ ' ' :: '(' :: q) (boundNames (p ++ ' ' :: '(' :: q)) ↔
      name ∈ tables (p ++ '(' :: q) (boundNames (p ++ '(' :: q)) ∨
        name ∉ boundNames (p ++ '(' :: q) ∧ name ∈ gainedNames p q := by
  have hbound : '(' ∉ name →
      (name ∈ boundNames (p ++ '(' :: q) ↔ name ∈ boundNames (p ++ ' ' :: '(' :: q)) :=
    mem_boundNames_loosened (Loosened.insert p q)
  have hopen : ∀ s, name ∈ foundNames s → '(' ∉ name := by
    intro s h
    rcases List.mem_append.mp h with h | h
    · obtain ⟨raw, -, hname⟩ := List.mem_filterMap.mp h
      exact opening_not_mem_of_tableName? hname
    · obtain ⟨part, -, hname⟩ := List.mem_filterMap.mp h
      exact opening_not_mem_of_partName? hname
  rw [mem_tables_found, mem_tables_found, mem_foundNames_space, ← and_or_left]
  constructor
  · rintro ⟨hfree, hfound⟩
    refine ⟨fun h => hfree ((hbound ?_).mp h), hfound⟩
    exact hfound.elim (hopen _) opening_not_mem_of_gained
  · rintro ⟨hfree, hfound⟩
    refine ⟨fun h => hfree ((hbound ?_).mpr h), hfound⟩
    exact hfound.elim (hopen _) opening_not_mem_of_gained

/-! ### Statements -/

section Statement

variable {p : List Char} (hp : Region.code.after p = .code) (q : List Char)

include hp

private theorem blankFrom_opening (filled : Char → Bool) :
    blankFrom filled none (removeComments (p ++ '(' :: q)) =
      blankFrom filled none (removeComments p) ++
        '(' :: blankFrom filled none (removeComments q) :=
  blankFrom_removeComments_append filled (w := ['(']) hp (by decide) (by decide) q

private theorem blankFrom_space_opening (filled : Char → Bool) :
    blankFrom filled none (removeComments (p ++ ' ' :: '(' :: q)) =
      blankFrom filled none (removeComments p) ++
        ' ' :: '(' :: blankFrom filled none (removeComments q) :=
  blankFrom_removeComments_append filled (w := [' ', '(']) hp (by decide) (by decide) q

private theorem metricsOf_space : metricsOf (p ++ ' ' :: '(' :: q) =
    { metricsOf (p ++ '(' :: q) with
      tableCount := (structureOf (p ++ ' ' :: '(' :: q)).tables.length } := by
  have hloosened : Loosened (blankLiterals (removeComments (p ++ '(' :: q)))
      (blankLiterals (removeComments (p ++ ' ' :: '(' :: q))) := by
    rw [blankLiterals, blankLiterals, blankFrom_opening hp, blankFrom_space_opening hp]
    exact Loosened.insert _ _
  rw [metricsOf_eq_blankedMetrics, metricsOf_eq_blankedMetrics,
    ← blankedMetrics_loosened (mainQuery_loosened hloosened)]
  rfl

private theorem mem_tables_structureOf_space (name : List Char) :
    name ∈ (structureOf (p ++ ' ' :: '(' :: q)).tables ↔
      name ∈ (structureOf (p ++ '(' :: q)).tables ∨
        name ∉ (structureOf (p ++ '(' :: q)).boundNames ∧
          name ∈ gainedNames (blankStrings (removeComments p))
            (blankStrings (removeComments q)) := by
  rw [tables_structureOf, tables_structureOf, boundNames_structureOf, blankStrings, blankStrings,
    blankFrom_opening hp, blankFrom_space_opening hp]
  exact mem_tables_space _ _ name

end Statement

/-- Names without repetition that contain others are as many only if they are the same. -/
theorem length_eq_iff_of_subset {l l' : List (List Char)} (hl : l.Nodup) (hl' : l'.Nodup)
    (h : l ⊆ l') : l'.length = l.length ↔ l' ⊆ l := by
  have hsub := List.subperm_of_subset hl h
  constructor
  · intro hlength
    exact (hsub.perm_of_length_le (by omega)).symm.subset
  · intro hback
    have hle := (List.subperm_of_subset hl' hback).length_le
    have hge := hsub.length_le
    omega

/-- A space before an opening parenthesis that stands in the code changes no metric but the number
of tables. The tables that it adds are the gained names that are not bound, so nothing at all
changes exactly when each gained name is bound or is the name of a table without the space. -/
theorem space_before_opening (p q : List Char) (hp : Region.code.after p = .code) :
    let tight := structureOf (p ++ '(' :: q)
    let spaced := structureOf (p ++ ' ' :: '(' :: q)
    let gained := gainedNames (blankStrings (removeComments p)) (blankStrings (removeComments q))
    metricsOf (p ++ ' ' :: '(' :: q) =
        { metricsOf (p ++ '(' :: q) with tableCount := spaced.tables.length } ∧
      (∀ name, name ∈ spaced.tables ↔
        name ∈ tight.tables ∨ name ∉ tight.boundNames ∧ name ∈ gained) ∧
      (metricsOf (p ++ ' ' :: '(' :: q) = metricsOf (p ++ '(' :: q) ↔
        ∀ name ∈ gained, name ∈ tight.boundNames ∨ name ∈ tight.tables) := by
  intro tight spaced gained
  have htables : ∀ name, name ∈ spaced.tables ↔
      name ∈ tight.tables ∨ name ∉ tight.boundNames ∧ name ∈ gained :=
    mem_tables_structureOf_space hp q
  refine ⟨metricsOf_space hp q, htables, ?_⟩
  have hcount : metricsOf (p ++ ' ' :: '(' :: q) = metricsOf (p ++ '(' :: q) ↔
      spaced.tables.length = tight.tables.length := by
    constructor
    · intro h
      exact congrArg Metrics.tableCount h
    · intro h
      have hlength : (structureOf (p ++ ' ' :: '(' :: q)).tables.length =
          (metricsOf (p ++ '(' :: q)).tableCount := h
      rw [metricsOf_space hp, hlength]
  have htight : tight.tables.Nodup := nodup_tables _ _
  have hspaced : spaced.tables.Nodup := nodup_tables _ _
  have hsubset : tight.tables ⊆ spaced.tables := fun name h => (htables name).mpr (.inl h)
  rw [hcount, length_eq_iff_of_subset htight hspaced hsubset]
  constructor
  · intro h name hgained
    by_cases hbound : name ∈ tight.boundNames
    · exact .inl hbound
    · exact .inr (h ((htables name).mpr (.inr ⟨hbound, hgained⟩)))
  · intro h name hname
    rcases (htables name).mp hname with hname | ⟨hfree, hgained⟩
    · exact hname
    · exact (h name hgained).resolve_left hfree

/-- A table function that is an item of a list and a `FROM` before a subquery: with the space the
function is a table, and the list is opened. -/
theorem space_before_opening_function_and_subquery :
    (Region.code.after "SELECT * FROM t, numbers".toList = .code ∧
      metricsOf "SELECT * FROM t, numbers (10)".toList =
        { metricsOf "SELECT * FROM t, numbers(10)".toList with tableCount := 2 } ∧
      (metricsOf "SELECT * FROM t, numbers(10)".toList).tableCount = 1) ∧
    Region.code.after "SELECT * FROM".toList = .code ∧
      metricsOf "SELECT * FROM (SELECT 1) s, t".toList =
        { metricsOf "SELECT * FROM(SELECT 1) s, t".toList with tableCount := 1 } ∧
      (metricsOf "SELECT * FROM(SELECT 1) s, t".toList).tableCount = 0 := by
  have hfunction : Region.code.after "SELECT * FROM t, numbers".toList = .code := by decide
  have hsubquery : Region.code.after "SELECT * FROM".toList = .code := by decide
  have htables : (structureOf "SELECT * FROM t, numbers (10)".toList).tables.length = 2 := by
    decide +kernel
  have hlist : (structureOf "SELECT * FROM (SELECT 1) s, t".toList).tables.length = 1 := by
    decide +kernel
  have hadded := (space_before_opening "SELECT * FROM t, numbers".toList "10)".toList hfunction).1
  have hopened := (space_before_opening "SELECT * FROM".toList "SELECT 1) s, t".toList hsubquery).1
  refine ⟨⟨hfunction, ?_, by decide +kernel⟩, hsubquery, ?_, by decide +kernel⟩
  · rw [← htables]
    exact hadded
  · rw [← hlist]
    exact hopened

end SqlReview.Query

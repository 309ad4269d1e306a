import Mathlib.Algebra.Ring.Nat
import SqlReview.Query.Structure

/-!
# The score in whole numbers

The score is added up in 32 bits, from products that are cut off where they do not fit. Its parts
are capped far below that, so it is the sum that one would take in whole numbers. From there on it
is a matter of ten bounded parts, each of which grows with its count or flag.
-/

namespace SqlReview.Query

/-! ### The order of metrics and of levels -/

/-- Whether no count and no flag of some metrics is greater than that of others. -/
structure Metrics.Within (m n : Metrics) : Prop where
  tableCount : m.tableCount ≤ n.tableCount
  joinCount : m.joinCount ≤ n.joinCount
  subqueryDepth : m.subqueryDepth ≤ n.subqueryDepth
  aggregationCount : m.aggregationCount ≤ n.aggregationCount
  hasDistinct : m.hasDistinct ≤ n.hasDistinct
  hasGroupBy : m.hasGroupBy ≤ n.hasGroupBy
  hasOrderBy : m.hasOrderBy ≤ n.hasOrderBy
  hasLimit : m.hasLimit ≤ n.hasLimit
  hasPrewhere : m.hasPrewhere ≤ n.hasPrewhere
  hasWhere : m.hasWhere ≤ n.hasWhere
  isSelectStar : m.isSelectStar ≤ n.isSelectStar
  columnCount : m.columnCount ≤ n.columnCount

/-- The place of a level, the lowest level first. -/
def Level.place : Level → Nat
  | .low => 0
  | .medium => 1
  | .high => 2

/-! ### Points -/

/-- The points of a count in whole numbers: a product, and at most the cap. -/
def countWorth (count points cap : Nat) : Nat :=
  min (points * count) cap

/-- The points of a flag in whole numbers. -/
def flagWorth (flag : Bool) (points : Nat) : Nat :=
  if flag then points else 0

/-- The points of the width of a select list in whole numbers. -/
def columnWorth (count : Nat) : Nat :=
  if count > 20 then 10 else if count > 10 then 5 else 0

/-- The points of some metrics in whole numbers. -/
def Metrics.points (m : Metrics) : Nat :=
  countWorth m.tableCount 5 20 + countWorth m.joinCount 5 15 + countWorth m.subqueryDepth 10 20 +
    countWorth m.aggregationCount 3 10 + flagWorth m.hasDistinct 5 + flagWorth m.hasGroupBy 5 +
    flagWorth m.hasOrderBy 3 + flagWorth m.isSelectStar 10 + columnWorth m.columnCount

/-- The parts of a score in the order in which they are added. -/
def scoreParts (m : Metrics) : List UInt32 := [
  capped m.tableCount 5 20, capped m.joinCount 5 15, capped m.subqueryDepth 10 20,
  capped m.aggregationCount 3 10, flagPoints m.hasDistinct 5, flagPoints m.hasGroupBy 5,
  flagPoints m.hasOrderBy 3, flagPoints m.isSelectStar 10, columnPoints m.columnCount]

private theorem toNat_clampCount (count : Nat) :
    (clampCount count).toNat = min count (UInt32.size - 1) := by
  unfold clampCount
  split
  · next h =>
    have hsmall : count.toUInt32.toNat = count := UInt32.toNat_ofNat_of_lt' h
    omega
  · next h =>
    have hmax : (0xFFFFFFFF : UInt32).toNat = UInt32.size - 1 := rfl
    omega

private theorem toNat_saturatingMul (a b : UInt32) :
    (saturatingMul a b).toNat = min (a.toNat * b.toNat) (UInt32.size - 1) := by
  unfold saturatingMul
  split
  · next h =>
    rw [UInt32.toNat_mul, Nat.mod_eq_of_lt h]
    omega
  · next h =>
    have hmax : (0xFFFFFFFF : UInt32).toNat = UInt32.size - 1 := rfl
    omega

private theorem toNat_min (a b : UInt32) : (min a b).toNat = min a.toNat b.toNat := by
  simp only [Nat.min_def, ← UInt32.le_iff_toNat_le]
  change (if a ≤ b then a else b).toNat = _
  split <;> rfl

private theorem toNat_capped (count : Nat) (points cap : UInt32) :
    (capped count points cap).toNat = countWorth count points.toNat cap.toNat := by
  have hcap : cap.toNat ≤ UInt32.size - 1 := Nat.le_pred_of_lt cap.toNat_lt
  rw [capped, toNat_min, toNat_saturatingMul, toNat_clampCount, countWorth,
    Nat.mul_comm points.toNat]
  by_cases hcount : count ≤ UInt32.size - 1
  · rw [Nat.min_eq_left hcount]
    omega
  · -- A count that does not fit is beyond the cap, unless it is worth nothing.
    rw [Nat.min_eq_right (Nat.le_of_not_le hcount)]
    rcases Nat.eq_zero_or_pos points.toNat with hzero | hpos
    · rw [hzero]
      omega
    · have hmax := Nat.le_mul_of_pos_right (UInt32.size - 1) hpos
      have hmore := Nat.le_mul_of_pos_right count hpos
      omega

private theorem toNat_flagPoints (flag : Bool) (points : UInt32) :
    (flagPoints flag points).toNat = flagWorth flag points.toNat := by
  cases flag <;> rfl

private theorem toNat_columnPoints (count : Nat) :
    (columnPoints count).toNat = columnWorth count := by
  unfold columnPoints columnWorth
  split
  · rfl
  · split <;> rfl

private theorem countWorth_le (count points cap : Nat) : countWorth count points cap ≤ cap :=
  Nat.min_le_right _ _

private theorem flagWorth_le (flag : Bool) (points : Nat) : flagWorth flag points ≤ points := by
  cases flag
  · exact Nat.zero_le _
  · exact Nat.le_refl _

private theorem columnWorth_le (count : Nat) : columnWorth count ≤ 10 := by
  unfold columnWorth
  split
  · exact Nat.le_refl _
  · split <;> decide

/-! ### The sum -/

private theorem map_toNat_scoreParts (m : Metrics) :
    (scoreParts m).map UInt32.toNat = [
      countWorth m.tableCount 5 20, countWorth m.joinCount 5 15, countWorth m.subqueryDepth 10 20,
      countWorth m.aggregationCount 3 10, flagWorth m.hasDistinct 5, flagWorth m.hasGroupBy 5,
      flagWorth m.hasOrderBy 3, flagWorth m.isSelectStar 10, columnWorth m.columnCount] := by
  simp only [scoreParts, List.map_cons, List.map_nil, toNat_capped, toNat_flagPoints,
    toNat_columnPoints]
  rfl

/-- The points are the sum of the parts. -/
theorem sum_map_toNat_scoreParts (m : Metrics) :
    ((scoreParts m).map UInt32.toNat).sum = m.points := by
  rw [map_toNat_scoreParts]
  simp only [List.sum_cons, List.sum_nil, Metrics.points]
  omega

/-- There are at most 98 points, and at most 88 where nothing is both a selected asterisk and a
counted column. -/
theorem points_le (m : Metrics) :
    m.points ≤ 98 ∧ ((m.isSelectStar = true → m.columnCount = 0) → m.points ≤ 88) := by
  have htables := countWorth_le m.tableCount 5 20
  have hjoins := countWorth_le m.joinCount 5 15
  have hdepth := countWorth_le m.subqueryDepth 10 20
  have hcalls := countWorth_le m.aggregationCount 3 10
  have hdistinct := flagWorth_le m.hasDistinct 5
  have hgroup := flagWorth_le m.hasGroupBy 5
  have horder := flagWorth_le m.hasOrderBy 3
  have hstar := flagWorth_le m.isSelectStar 10
  have hcolumns := columnWorth_le m.columnCount
  unfold Metrics.points
  refine ⟨by omega, ?_⟩
  intro hexclusive
  cases hs : m.isSelectStar with
  | false =>
    have hnone : flagWorth false 10 = 0 := rfl
    omega
  | true =>
    rw [hexclusive hs]
    have hnone : columnWorth 0 = 0 := rfl
    rw [hs] at hstar
    omega

private theorem toNat_foldl_add (a : UInt32) (l : List UInt32)
    (h : a.toNat + (l.map UInt32.toNat).sum < UInt32.size) :
    (l.foldl (· + ·) a).toNat = a.toNat + (l.map UInt32.toNat).sum := by
  induction l generalizing a with
  | nil => rfl
  | cons b l ih =>
    rw [List.map_cons, List.sum_cons] at h ⊢
    have hab : (a + b).toNat = a.toNat + b.toNat := by
      rw [UInt32.toNat_add, Nat.mod_eq_of_lt]
      have hsize : UInt32.size = 2 ^ 32 := rfl
      omega
    rw [List.foldl_cons, ih (a + b) (by omega), hab]
    omega

private theorem sum_take_scoreParts_le (m : Metrics) (k : Nat) :
    (((scoreParts m).take k).map UInt32.toNat).sum ≤ m.points := by
  have h := sum_map_toNat_scoreParts m
  rw [← List.take_append_drop k (scoreParts m), List.map_append, List.sum_append] at h
  omega

/-- The sum of the parts in 32 bits is the points. -/
theorem toNat_foldl_scoreParts (m : Metrics) :
    ((scoreParts m).foldl (· + ·) 0).toNat = m.points := by
  have hsum := sum_map_toNat_scoreParts m
  have hle := (points_le m).1
  have hsize : UInt32.size = 2 ^ 32 := rfl
  have hzero : (0 : UInt32).toNat = 0 := rfl
  rw [toNat_foldl_add 0 (scoreParts m) (by omega), hsum, hzero, Nat.zero_add]

/-- The score is the sum of the parts: it is never held below the greatest score. -/
theorem score_eq_foldl (m : Metrics) : score m = (scoreParts m).foldl (· + ·) 0 := by
  have hle := (points_le m).1
  have hmax : maxScore.toNat = 100 := rfl
  have hscore : score m = min ((scoreParts m).foldl (· + ·) 0) maxScore := by
    simp only [score, scoreParts, List.foldl_cons, List.foldl_nil, UInt32.zero_add]
  apply UInt32.toNat_inj.mp
  rw [hscore, toNat_min, toNat_foldl_scoreParts, hmax]
  omega

/-! ### Growth -/

private theorem countWorth_mono {a b : Nat} (h : a ≤ b) (points cap : Nat) :
    countWorth a points cap ≤ countWorth b points cap := by
  have hproduct := Nat.mul_le_mul_left points h
  unfold countWorth
  omega

private theorem flagWorth_mono {a b : Bool} (h : a ≤ b) (points : Nat) :
    flagWorth a points ≤ flagWorth b points := by
  cases a with
  | false => exact Nat.zero_le _
  | true =>
    obtain rfl : b = true := h rfl
    exact Nat.le_refl _

private theorem columnWorth_mono {a b : Nat} (h : a ≤ b) : columnWorth a ≤ columnWorth b := by
  unfold columnWorth
  split <;> split <;> (try split) <;> (try split) <;> omega

/-- Greater metrics have no fewer points. -/
theorem Metrics.Within.points {m n : Metrics} (h : m.Within n) : m.points ≤ n.points := by
  have htables := countWorth_mono h.tableCount 5 20
  have hjoins := countWorth_mono h.joinCount 5 15
  have hdepth := countWorth_mono h.subqueryDepth 10 20
  have hcalls := countWorth_mono h.aggregationCount 3 10
  have hdistinct := flagWorth_mono h.hasDistinct 5
  have hgroup := flagWorth_mono h.hasGroupBy 5
  have horder := flagWorth_mono h.hasOrderBy 3
  have hstar := flagWorth_mono h.isSelectStar 10
  have hcolumns := columnWorth_mono h.columnCount
  unfold Metrics.points
  omega

/-- A greater score has no lower level. -/
theorem place_ofScore_mono {a b : UInt32} (h : a ≤ b) :
    (Level.ofScore a).place ≤ (Level.ofScore b).place := by
  unfold Level.ofScore
  split
  · exact Nat.zero_le _
  · next hlow =>
    have hlow' : ¬ b < lowThreshold := fun hb => hlow (UInt32.lt_of_le_of_lt h hb)
    rw [if_neg hlow']
    split
    · split <;> decide
    · next hmedium =>
      have hmedium' : ¬ b < mediumThreshold := fun hb => hmedium (UInt32.lt_of_le_of_lt h hb)
      exact Nat.le_of_eq (congrArg Level.place (if_neg hmedium').symm)

/-- The select list of a statement is an asterisk or has columns that are counted, not both. -/
theorem columnCount_metricsOf (s : List Char) :
    (metricsOf s).isSelectStar = true → (metricsOf s).columnCount = 0 :=
  fun h => if_pos h

/-- The score is the formula in whole numbers, whatever the counts are: no sum that is taken on the
way exceeds 32 bits, and the sum is never cut off. It is at most 98, and at most 88 for a
statement. Greater metrics have neither a smaller score nor a lower level. -/
theorem score_exact_bounded_monotone (m : Metrics) :
    (score m).toNat = m.points ∧
      (∀ k, (((scoreParts m).take k).map UInt32.toNat).sum < UInt32.size) ∧
      score m = (scoreParts m).foldl (· + ·) 0 ∧
      score m ≤ 98 ∧
      (∀ s, score (metricsOf s) ≤ 88) ∧
      ∀ n : Metrics, m.Within n →
        score m ≤ score n ∧
          (Complexity.level { metrics := m }).place ≤
            (Complexity.level { metrics := n }).place := by
  have hpoints : ∀ n : Metrics, (score n).toNat = n.points := by
    intro n
    rw [score_eq_foldl, toNat_foldl_scoreParts]
  have hmono : ∀ n : Metrics, m.Within n → score m ≤ score n := by
    intro n hn
    rw [UInt32.le_iff_toNat_le, hpoints, hpoints]
    exact hn.points
  refine ⟨hpoints m, ?_, score_eq_foldl m, ?_, ?_, ?_⟩
  · intro k
    have hsize : UInt32.size = 2 ^ 32 := rfl
    have hle := (points_le m).1
    have htaken := sum_take_scoreParts_le m k
    omega
  · rw [UInt32.le_iff_toNat_le, hpoints]
    exact (points_le m).1
  · intro s
    rw [UInt32.le_iff_toNat_le, hpoints]
    exact (points_le (metricsOf s)).2 (columnCount_metricsOf s)
  · intro n hn
    exact ⟨hmono n hn, place_ofScore_mono (hmono n hn)⟩

/-- The greatest count of 64 bits and every flag are worth the 98 points, and metrics with fewer
tables are worth no more. -/
theorem score_of_greatest_metrics :
    let n : Metrics :=
      { tableCount := 2 ^ 64 - 1, joinCount := 2 ^ 64 - 1, subqueryDepth := 2 ^ 64 - 1,
        aggregationCount := 2 ^ 64 - 1, hasDistinct := true, hasGroupBy := true,
        hasOrderBy := true, hasLimit := true, hasPrewhere := true, hasWhere := true,
        isSelectStar := true, columnCount := 2 ^ 64 - 1 }
    let m : Metrics := { n with tableCount := 3 }
    score n = 98 ∧ m.Within n ∧ score m ≤ score n ∧ m.points = 93 := by
  intro n m
  have hwithin : m.Within n := by constructor <;> decide
  have hgreatest : score n = 98 := by
    rw [← UInt32.toNat_inj, (score_exact_bounded_monotone n).1]
    decide
  exact ⟨hgreatest, hwithin, ((score_exact_bounded_monotone m).2.2.2.2.2 n hwithin).1, by decide⟩

end SqlReview.Query

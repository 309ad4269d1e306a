import SqlReview.Proofs.Query.Metrics
import SqlReview.Proofs.Rule.Evaluate

/-!
# Contents of literals

A statement shows its analysis little of what its literals hold. The metrics are those of the
blanked text, the number of tables apart; names and tables are those of the text whose strings are
blanked; and all but two of the rules look at the metrics and the blanked text alone.
-/

namespace SqlReview.Rule

open SqlReview.Lexical SqlReview.Query

/-- The rules that look at a text that still has its literals. -/
def contentRules : List String := ["leading-wildcard", "large-in-list"]

private theorem check_eq_of_blanked_eq {r : Rule} (hr : r ∈ catalogue)
    (hid : r.entry.id ∉ contentRules) {s t : Subject} (hm : s.metrics = t.metrics)
    (hb : s.blanked = t.blanked) : r.check s = r.check t := by
  obtain ⟨m, n, b⟩ := s
  obtain ⟨m', n', b'⟩ := t
  obtain rfl : m = m' := hm
  obtain rfl : b = b' := hb
  simp only [catalogue, List.mem_cons, List.not_mem_nil, or_false] at hr
  rcases hr with rfl | rfl | rfl | rfl | rfl | rfl | rfl | rfl | rfl | rfl | rfl | rfl | rfl |
    rfl | rfl | rfl | rfl | rfl | rfl | rfl
  all_goals first
    | exact absurd (by decide) hid
    | rfl

/-- What literals hold has no bearing on an analysis beyond their length. Two statements whose
blanked texts are equal agree in their metrics, the number of tables apart. If the texts with only
their strings blanked are equal as well, they agree in bound names, tables, metrics and all
recommendations but those of the two rules that look into literals. -/
theorem analysis_eq_of_blanked_eq (s t : List Char)
    (h : blankLiterals (removeComments s) = blankLiterals (removeComments t)) :
    { metricsOf s with tableCount := 0 } = { metricsOf t with tableCount := 0 } ∧
      (blankStrings (removeComments s) = blankStrings (removeComments t) →
        (structureOf s).boundNames = (structureOf t).boundNames ∧
          (structureOf s).tables = (structureOf t).tables ∧
          metricsOf s = metricsOf t ∧
          without ["leading-wildcard", "large-in-list"]
              (evaluate (enabled {}) (Subject.of s (metricsOf s))) =
            without ["leading-wildcard", "large-in-list"]
              (evaluate (enabled {}) (Subject.of t (metricsOf t)))) := by
  refine ⟨?_, ?_⟩
  · rw [metricsOf_eq_blankedMetrics, metricsOf_eq_blankedMetrics, h]
    rfl
  · intro hstrings
    have hbound : (structureOf s).boundNames = (structureOf t).boundNames :=
      congrArg boundNames hstrings
    have htables : (structureOf s).tables = (structureOf t).tables :=
      congrArg (fun named => tables named (boundNames named)) hstrings
    have hmetrics : metricsOf s = metricsOf t := by
      rw [metricsOf_eq_blankedMetrics, metricsOf_eq_blankedMetrics, h, htables]
    refine ⟨hbound, htables, hmetrics, ?_⟩
    apply without_evaluate_congr
    intro r hr hid
    exact check_eq_of_blanked_eq hr hid hmetrics (congrArg Text.upperAscii h)

/-- Two statements with strings of the same length, an escaped mark in one of them, have all of
this in common. -/
theorem analysis_eq_of_escaped_mark :
    let s := "SELECT a FROM t WHERE b = 'x(\\'y'".toList
    let t := "SELECT a FROM t WHERE b = ';zz--'".toList
    (blankLiterals (removeComments s) = blankLiterals (removeComments t) ∧
      blankStrings (removeComments s) = blankStrings (removeComments t)) ∧
    metricsOf s = metricsOf t ∧
    without ["leading-wildcard", "large-in-list"]
        (evaluate (enabled {}) (Subject.of s (metricsOf s))) =
      without ["leading-wildcard", "large-in-list"]
        (evaluate (enabled {}) (Subject.of t (metricsOf t))) := by
  intro s t
  have hliterals : blankLiterals (removeComments s) = blankLiterals (removeComments t) := by decide
  have hstrings : blankStrings (removeComments s) = blankStrings (removeComments t) := by decide
  exact ⟨⟨hliterals, hstrings⟩, ((analysis_eq_of_blanked_eq s t hliterals).2 hstrings).2.2⟩

end SqlReview.Rule

import SqlReview.Search.Phrase

/-!
# Joins

A join is a `JOIN` together with the modifiers before it, so that `LEFT OUTER JOIN` is one join.
-/

namespace SqlReview.Query

open SqlReview.Search

/-- The modifiers that may stand before a `JOIN`, in the order of their places; one of each group
at most belongs to a join. -/
def joinModifiers : List (List String) := [
  ["GLOBAL"],
  ["ANY", "ALL"],
  ["INNER", "LEFT", "RIGHT", "FULL", "CROSS", "NATURAL", "ASYNC"],
  ["OUTER"]]

/-- One modifier of a group and the gap after it, if it is there. -/
def modifier (group : List String) : Phrase :=
  .opt (.all [.any (group.map Phrase.letters), .gap])

/-- A `JOIN` with its modifiers. -/
def join : Phrase :=
  .all (.boundary :: joinModifiers.map modifier ++ [.letters "JOIN", .boundary])

/-- The number of joins in a text whose literals are blanked. -/
def joinCount (s : List Char) : Nat :=
  count join s

end SqlReview.Query

import SqlReview.Query.Prologue

/-!
# Subqueries

How deeply the subqueries of a statement are nested, read from a text that still has its
literals.
-/

namespace SqlReview.Query

open SqlReview.Text SqlReview.Lexical

/-- The greatest number of subqueries open at once in the rest of a text, with `depth` of them
open. A parenthesis opens one when a `SELECT` follows it, and every closing parenthesis ends one
as long as there are any. -/
def subqueryDepthFrom (depth : Nat) (span : Option OpenSpan) : List Char → Nat
  | [] => depth
  | c :: s =>
    match span with
    | some q => subqueryDepthFrom depth (q.next c) s
    | none =>
      if isQuote c then subqueryDepthFrom depth (some { mark := c }) s
      else if c == '(' && startsWith "SELECT" (trimStart s) then
        subqueryDepthFrom (depth + 1) none s
      else if c == ')' then max depth (subqueryDepthFrom (depth - 1) none s)
      else subqueryDepthFrom depth none s

/-- The greatest number of subqueries that are nested in each other. -/
def subqueryDepth (s : List Char) : Nat :=
  subqueryDepthFrom 0 none s

end SqlReview.Query

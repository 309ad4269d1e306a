import SqlReview.Query.TopLevel
import SqlReview.Search.Phrase
import SqlReview.Text.Blank

/-!
# Select lists

The text between the first `SELECT` and its `FROM`, and what it selects. Literals have to be
blanked.
-/

namespace SqlReview.Query

open SqlReview.Text SqlReview.Search

/-- The text before the first `FROM` outside of parentheses, with `depth` parentheses open. There
is none when a parenthesis closes first. -/
def beforeFrom? (depth : Nat) (inName : Bool) : List Char → Option (List Char)
  | [] => none
  | c :: s =>
    if c == ')' && depth == 0 then none
    else if depth == 0 && !inName && startsWith "FROM" (c :: s) then some []
    else
      let depth := if c == '(' then depth + 1 else if c == ')' then depth - 1 else depth
      (beforeFrom? depth (isNameChar c) s).map (c :: ·)

/-- The select list of a text, blanks at its ends included. -/
def selectList? (s : List Char) : Option (List Char) :=
  (find? (.words ["SELECT"]) s).bind fun found => beforeFrom? 0 false found.stop.rest

/-- The number of items in the select list; 0 for a lone asterisk and where there is no list. -/
def columnCount (s : List Char) : Nat :=
  match (selectList? s).map trim with
  | none => 0
  | some list => if list = [] ∨ list = ['*'] then 0 else (splitTopLevel ',' list).length

/-- Whether the select list begins with an asterisk, apart from a `DISTINCT`. -/
def isSelectStar (s : List Char) : Bool :=
  match selectList? s with
  | none => false
  | some list =>
    let list := trimStart list
    let items := ((afterKeyword? "DISTINCT" list).map trimStart).getD list
    items.head? == some '*'

end SqlReview.Query

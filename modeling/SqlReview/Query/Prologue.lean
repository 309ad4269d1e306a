import SqlReview.Query.Keyword
import SqlReview.Lexical.Quote
import SqlReview.Text.Blank
import SqlReview.Text.LowerCase

/-!
# Prologues

A statement may begin with a prologue `WITH name AS (body), ...`. Two scans read it. `boundNames`
collects the names that the prologue binds, from a text whose string literals are blanked.
`mainQuery` is the statement from its first `SELECT` outside of parentheses on; it follows
quoted spans by itself.
-/

namespace SqlReview.Query

open SqlReview.Text SqlReview.Lexical

/-- Whether a statement begins with a prologue. -/
def hasPrologue (s : List Char) : Bool :=
  startsWith "WITH" (trimStart s)

/-- A symbol of a prologue. -/
inductive Token where
  | opening
  | closing
  | comma
  | word (w : List Char)
  | quoted (w : List Char)
  deriving Repr, DecidableEq

/-- The symbols of a text. What is no parenthesis, comma, word or quoted identifier is passed
over. -/
def tokens : List Char → List Token
  | [] => []
  | c :: s =>
    if c == '(' then .opening :: tokens s
    else if c == ')' then .closing :: tokens s
    else if c == ',' then .comma :: tokens s
    else if c == backtick || c == doubleQuote then
      .quoted (s.takeWhile (· != c)) :: tokens ((s.dropWhile (· != c)).drop 1)
    else if isNameChar c then
      .word (c :: s.takeWhile isNameChar) :: tokens (s.dropWhile isNameChar)
    else tokens s
termination_by s => s.length
decreasing_by
  all_goals simp_wf
  · have := (s.dropWhile_sublist (· != c)).length_le; omega
  · have := (s.dropWhile_sublist isNameChar).length_le; omega

/-- What a prologue has come to outside of parentheses. -/
inductive Expecting where
  /-- A name, a comma or the main query. -/
  | name
  /-- The rest of a list of columns. -/
  | columns
  /-- The body, `AS` having been read. -/
  | body
  /-- The end of a body. -/
  | bodyEnd
  deriving Repr, DecidableEq

/-- The reader of a prologue: open parentheses, what comes next, the name that may be bound, and
the names bound so far. -/
structure Binder where
  depth : Nat := 0
  expecting : Expecting := .name
  candidate : Option (List Char) := none
  names : List (List Char) := []
  deriving Repr, DecidableEq

/-- Adds a name to names without repetition. -/
def insertName (names : List (List Char)) (name : List Char) : List (List Char) :=
  if name ∈ names then names else names ++ [name]

namespace Binder

/-- A word, quoted or not, that ends no prologue. -/
def onWord (b : Binder) (w : List Char) : Binder :=
  if b.depth > 0 then b
  else if sameText w "SELECT".toList then b
  else if sameText w "AS".toList then { b with expecting := .body }
  else if sameText w "WITH".toList || sameText w "RECURSIVE".toList then b
  else if b.expecting = .name then { b with candidate := some (lower w) }
  else b

/-- An opening parenthesis. It binds the candidate when `AS` stands before it. -/
def onOpening (b : Binder) : Binder :=
  if b.depth > 0 then { b with depth := b.depth + 1 }
  else match b.expecting with
    | .body =>
      { b with
        depth := 1
        expecting := .bodyEnd
        candidate := none
        names := b.candidate.elim b.names (insertName b.names) }
    | .name =>
      { b with depth := 1, expecting := if b.candidate.isSome then .columns else .bodyEnd }
    | _ => { b with depth := 1, expecting := .bodyEnd }

/-- A closing parenthesis. The candidate outlives a list of columns only. -/
def onClosing (b : Binder) : Binder :=
  match b.depth with
  | 0 => b
  | 1 =>
    { b with
      depth := 0
      expecting := .name
      candidate := if b.expecting = .columns then b.candidate else none }
  | n + 2 => { b with depth := n + 1 }

/-- A comma. -/
def onComma (b : Binder) : Binder :=
  if b.depth = 0 then { b with expecting := .name, candidate := none } else b

/-- The names bound by the symbols up to the main query. -/
def run (b : Binder) : List Token → List (List Char)
  | [] => b.names
  | .opening :: ts => b.onOpening.run ts
  | .closing :: ts => b.onClosing.run ts
  | .comma :: ts => b.onComma.run ts
  | .quoted w :: ts => (b.onWord w).run ts
  | .word w :: ts =>
    if b.depth = 0 ∧ sameText w "SELECT".toList then b.names else (b.onWord w).run ts

end Binder

/-- The names that a statement's prologue binds, in lower case and without their quotation
marks, each once. Comments have to be removed and string literals blanked. -/
def boundNames (s : List Char) : List (List Char) :=
  if hasPrologue s then Binder.run {} (tokens s) else []

/-- A quoted span that is open: its mark, and whether a backslash stands right before. -/
structure OpenSpan where
  mark : Char
  escaped : Bool := false
  deriving Repr, DecidableEq

/-- The span after one more of its characters. -/
def OpenSpan.next (q : OpenSpan) (c : Char) : Option OpenSpan :=
  if q.escaped then some { q with escaped := false }
  else if c == backslash then some { q with escaped := true }
  else if c == q.mark then none
  else some q

/-- The text from the first `SELECT` on that stands outside of parentheses and quoted spans. -/
def selectFrom (depth : Nat) (span : Option OpenSpan) (inName : Bool) :
    List Char → Option (List Char)
  | [] => none
  | c :: s =>
    match span with
    | some q => selectFrom depth (q.next c) (isNameChar c) s
    | none =>
      if isQuote c then selectFrom depth (some { mark := c }) (isNameChar c) s
      else if c == '(' then selectFrom (depth + 1) none (isNameChar c) s
      else if c == ')' then selectFrom (depth - 1) none (isNameChar c) s
      else if depth == 0 && !inName && startsWith "SELECT" (c :: s) then some (c :: s)
      else selectFrom depth none (isNameChar c) s

/-- A statement from its main query on: the whole of it when it has no prologue, or when no main
query is found. Comments have to be removed. -/
def mainQuery (s : List Char) : List Char :=
  if hasPrologue s then (selectFrom 0 none false s).getD s else s

end SqlReview.Query

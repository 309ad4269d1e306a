import SqlReview.Lexical.Comment
import SqlReview.Lexical.Literal
import SqlReview.Query.Metrics
import SqlReview.Rule.Severity
import SqlReview.Text.Ascii

/-!
# Rules

A rule has an id, a title and a tier, and a check that looks at one statement. What the check
finds, together with the rule's id, title and tier, is a recommendation.
-/

namespace SqlReview

open SqlReview.Text SqlReview.Lexical SqlReview.Query

namespace Rule

/-- What is listed of a rule. -/
structure Entry where
  id : String
  title : String
  severity : Severity
  deriving Repr, DecidableEq

/-- What a check has found: a description with the numbers that led to it, and what to do. -/
structure Finding where
  description : String
  suggestion : String
  deriving Repr, DecidableEq

/-- A finding under the id, title and tier of its rule. -/
structure Recommendation where
  id : String
  severity : Severity
  title : String
  description : String
  suggestion : String
  deriving Repr, DecidableEq

/-- What a check may look at: the metrics of a statement and its text without comments, with its
ASCII letters in upper case. In `blanked` the contents of literals are blanked, so that the two
texts have the same byte offsets. -/
structure Subject where
  metrics : Metrics
  normalized : List Char
  blanked : List Char
  deriving Repr, DecidableEq

/-- The subject that a statement with the given metrics is. -/
def Subject.of (s : List Char) (metrics : Metrics) : Subject :=
  let plain := removeComments s
  { metrics
    normalized := upperAscii plain
    blanked := upperAscii (blankLiterals plain) }

/-- The recommendation that a finding of a rule is. -/
def Entry.recommend (e : Entry) (f : Finding) : Recommendation :=
  { id := e.id
    severity := e.severity
    title := e.title
    description := f.description
    suggestion := f.suggestion }

/-- A finding that is there under a condition. -/
def findWhen (condition : Bool) (description suggestion : String) : Option Finding :=
  if condition then some { description, suggestion } else none

/-- There is a finding when its condition holds. -/
@[simp] theorem isSome_findWhen (condition : Bool) (description suggestion : String) :
    (findWhen condition description suggestion).isSome = condition := by
  cases condition <;> rfl

/-- A finding is the one with the given texts, and it is there when its condition holds. -/
theorem findWhen_eq_some_iff {condition : Bool} {description suggestion : String}
    {finding : Finding} : findWhen condition description suggestion = some finding ↔
      condition = true ∧ finding = { description, suggestion } := by
  cases condition <;> simp [findWhen, eq_comm]

end Rule

/-- A rule. -/
structure Rule where
  entry : Rule.Entry
  check : Rule.Subject → Option Rule.Finding

/-- The recommendation of a rule for a statement, if the rule has one. -/
def Rule.apply (r : Rule) (subject : Rule.Subject) : Option Rule.Recommendation :=
  (r.check subject).map r.entry.recommend

end SqlReview

import SqlReview.Text.Ascii
import SqlReview.Text.Blank
import SqlReview.Text.Split
import Std.Data.ExtTreeMap

/-!
# Settings

Which rules are disabled, and which are moved to another tier. Settings come in layers: `merge`
lays one over another. Ids are compared up to the case of ASCII letters. Of several spellings of a
disabled id the first is kept; of several tiers for one id the last one counts, the entries of
one layer being taken in the order of their keys.
-/

namespace SqlReview

open SqlReview.Text

/-- Whether two ids are the same up to the case of ASCII letters. -/
def sameId (a b : String) : Bool :=
  sameText a.toList b.toList

/-- An id in lower case. -/
def foldId (id : String) : String :=
  String.ofList (lowerAscii id.toList)

/-- Settings of the rules. -/
structure Settings where
  /-- The ids of disabled rules. -/
  disabled : List String := []
  /-- Names of tiers by the ids of rules. -/
  tiers : Std.ExtTreeMap String String := {}

namespace Settings

/-- Adds an id to a list of disabled ones, unless a spelling of it is there already. -/
def insertId (ids : List String) (id : String) : List String :=
  if ids.any (sameId · id) then ids else ids ++ [id]

/-- The settings `base` under the settings `top`. -/
def merge (base top : Settings) : Settings where
  disabled := top.disabled.foldl insertId base.disabled
  tiers := top.tiers.foldl (fun tiers id tier => tiers.insert (foldId id) tier) base.tiers

/-- The settings that disable some rules. -/
def ofDisabled (ids : List String) : Settings :=
  { disabled := ids }

/-- Settings with further rules disabled. -/
def disable (settings : Settings) (ids : List String) : Settings :=
  settings.merge (ofDisabled ids)

/-- The ids in a list that commas separate; blanks around an id do not belong to it. -/
def idsOfList (list : String) : List String :=
  ((splitAt ',' list.toList).map trim |>.filter (!·.isEmpty)).map String.ofList

/-- Settings with the rules disabled that a list names, its ids being separated by commas. -/
def disableList (settings : Settings) (list : String) : Settings :=
  settings.disable (idsOfList list)

/-- Whether a rule is disabled. -/
def disables (settings : Settings) (id : String) : Bool :=
  settings.disabled.any (sameId · id)

end Settings

end SqlReview

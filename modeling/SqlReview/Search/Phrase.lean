import SqlReview.Text.Ascii
import SqlReview.Text.Blank
import SqlReview.Text.WordChar

/-!
# Phrases

What a search looks for. A phrase is read from a place in a text to a later place, or it is not
there. Reading never goes back: a run takes as much as it can, an optional part is taken wherever
it is there, and of two alternatives the first that can be read is taken. `occurrences` are
the readings found from left to right, none of which begins before the one before it has ended.
-/

namespace SqlReview.Search

open SqlReview.Text

/-- A place in a text: the character before it, and the text from it on. -/
structure Place where
  before : Option Char
  rest : List Char
  deriving Repr, DecidableEq

/-- The place at the start of a text. -/
def Place.start (s : List Char) : Place :=
  ⟨none, s⟩

/-- Whether a word begins or ends at a place. -/
def Place.atBoundary (p : Place) : Bool :=
  p.before.any isWordChar != p.rest.head?.any isWordChar

/-- The place after the longest run of characters of a class. -/
def Place.skipWhile (cls : Char → Bool) (p : Place) : Place :=
  let taken := p.rest.takeWhile cls
  ⟨taken.getLast?.or p.before, p.rest.dropWhile cls⟩

/-- What a search looks for. -/
inductive Phrase where
  /-- One character of a class. -/
  | one (cls : Char → Bool)
  /-- As many characters of a class as there are, possibly none. -/
  | run (cls : Char → Bool)
  /-- The beginning or the end of a word. -/
  | boundary
  /-- One phrase and then another. -/
  | seq (a b : Phrase)
  /-- A phrase, if it is there. -/
  | opt (a : Phrase)
  /-- The first of two phrases, or else the second. -/
  | either (a b : Phrase)

/-- The place at which a phrase ends that is read from the given place. -/
def Phrase.read : Phrase → Place → Option Place
  | .one cls, p =>
    match p.rest with
    | [] => none
    | c :: s => if cls c then some ⟨some c, s⟩ else none
  | .run cls, p => some (p.skipWhile cls)
  | .boundary, p => if p.atBoundary then some p else none
  | .seq a b, p => (a.read p).bind b.read
  | .opt a, p => some ((a.read p).getD p)
  | .either a b, p => (a.read p).or (b.read p)

namespace Phrase

variable (cls : Char → Bool) (a b : Phrase) (p : Place)

/-- No character is read at the end of a text. -/
@[simp] theorem read_one_nil (before : Option Char) : (one cls).read ⟨before, []⟩ = none := rfl

/-- One character of a class is read where it stands. -/
@[simp] theorem read_one_cons (before : Option Char) (c : Char) (s : List Char) :
    (one cls).read ⟨before, c :: s⟩ = if cls c then some ⟨some c, s⟩ else none := rfl

/-- A run is read up to the first character that is not of its class. -/
@[simp] theorem read_run : (run cls).read p = some (p.skipWhile cls) := rfl

/-- A boundary is read where a word begins or ends. -/
@[simp] theorem read_boundary : boundary.read p = if p.atBoundary then some p else none := rfl

/-- Two phrases one after the other are read from the end of the first. -/
@[simp] theorem read_seq : (seq a b).read p = (a.read p).bind b.read := rfl

/-- An optional part is read everywhere, if only as nothing. -/
@[simp] theorem read_opt : (opt a).read p = some ((a.read p).getD p) := rfl

/-- The second of two phrases is read where the first is not. -/
@[simp] theorem read_either : (either a b).read p = (a.read p).or (b.read p) := rfl

end Phrase

/-- Phrases one after the other. -/
def Phrase.all : List Phrase → Phrase
  | [] => .run fun _ => false
  | [a] => a
  | a :: rest => .seq a (.all rest)

/-- The first of several phrases that is there. -/
def Phrase.any : List Phrase → Phrase
  | [] => .one fun _ => false
  | [a] => a
  | a :: rest => .either a (.any rest)

namespace Phrase

variable {P : Phrase → Prop} {a : Phrase} {l : List Phrase}

/-- What a phrase has whatever follows it, phrases one after the other have that begin with it. -/
theorem all_cons_of (hseq : ∀ {a b}, P a → P (.seq a b)) (ha : P a) (l : List Phrase) :
    P (.all (a :: l)) := by
  cases l with
  | nil => exact ha
  | cons b l => exact hseq ha

/-- What one phrase and then another have when both have it, phrases one after the other have. -/
theorem all_of_ne_nil (hseq : ∀ {a b}, P a → P b → P (.seq a b)) (hne : l ≠ [])
    (h : ∀ a ∈ l, P a) : P (.all l) := by
  induction l with
  | nil => exact absurd rfl hne
  | cons a l ih =>
    have ha := h a (List.mem_cons_self ..)
    cases l with
    | nil => exact ha
    | cons b l =>
      exact hseq ha (ih (List.cons_ne_nil b l) fun c hc => h c (List.mem_cons_of_mem a hc))

/-- There may be no phrases at all when the phrase that takes nothing has it, too. -/
theorem all_of (hnil : P (.run fun _ => false)) (hseq : ∀ {a b}, P a → P b → P (.seq a b))
    (h : ∀ a ∈ l, P a) : P (.all l) := by
  cases l with
  | nil => exact hnil
  | cons a l => exact all_of_ne_nil hseq (List.cons_ne_nil a l) h

/-- What the first of two phrases has when both have it, the first of several phrases has. -/
theorem any_of_ne_nil (heither : ∀ {a b}, P a → P b → P (.either a b)) (hne : l ≠ [])
    (h : ∀ a ∈ l, P a) : P (.any l) := by
  induction l with
  | nil => exact absurd rfl hne
  | cons a l ih =>
    have ha := h a (List.mem_cons_self ..)
    cases l with
    | nil => exact ha
    | cons b l =>
      exact heither ha (ih (List.cons_ne_nil b l) fun c hc => h c (List.mem_cons_of_mem a hc))

/-- There may be no phrases at all when the phrase that is never read has it, too. -/
theorem any_of (hnone : P (.one fun _ => false)) (heither : ∀ {a b}, P a → P b → P (.either a b))
    (h : ∀ a ∈ l, P a) : P (.any l) := by
  cases l with
  | nil => exact hnone
  | cons a l => exact any_of_ne_nil heither (List.cons_ne_nil a l) h

end Phrase

/-- Whether a character is a letter of a keyword, in either case. Beside the two ASCII letters the
long s stands for an s and the Kelvin sign for a k. -/
def foldsTo (letter c : Char) : Bool :=
  sameLetter letter c || (letter.toLower == 's' && c == '\u017F') ||
    (letter.toLower == 'k' && c == '\u212A')

/-- The letters of a keyword in any case. -/
def Phrase.letters (keyword : String) : Phrase :=
  .all (keyword.toList.map fun k => .one (foldsTo k))

/-- The characters of a keyword as they stand. -/
def Phrase.exactly (keyword : String) : Phrase :=
  .all (keyword.toList.map fun k => .one (· == k))

/-- One or more characters of a class. -/
def Phrase.atLeastOne (cls : Char → Bool) : Phrase :=
  .seq (.one cls) (.run cls)

/-- Any number of blanks. -/
def Phrase.blanks : Phrase := .run isBlank

/-- At least one blank. -/
def Phrase.gap : Phrase := .atLeastOne isBlank

/-- Whole words with gaps between them, in any case. -/
def Phrase.words (keywords : List String) : Phrase :=
  .all (.boundary :: (keywords.map Phrase.letters).intersperse .gap ++ [.boundary])

/-- Whole words with gaps between them, as they stand. -/
def Phrase.exactWords (keywords : List String) : Phrase :=
  .all (.boundary :: (keywords.map Phrase.exactly).intersperse .gap ++ [.boundary])

/-- A phrase found in a text: where it begins, and where it ends. -/
structure Occurrence where
  start : Place
  stop : Place
  deriving Repr, DecidableEq

/-- The occurrences of a phrase in a text, given the character before it. No phrase is looked for
at the end of a text. -/
def occurrencesFrom (phrase : Phrase) (before : Option Char) : List Char → List Occurrence
  | [] => []
  | c :: s =>
    let start : Place := ⟨before, c :: s⟩
    match phrase.read start with
    | some stop =>
      if stop.rest.length ≤ s.length then
        ⟨start, stop⟩ :: occurrencesFrom phrase stop.before stop.rest
      else occurrencesFrom phrase (some c) s
    | none => occurrencesFrom phrase (some c) s
termination_by s => s.length

/-- The occurrences of a phrase in a text. -/
def occurrences (phrase : Phrase) (s : List Char) : List Occurrence :=
  occurrencesFrom phrase none s

/-- The first occurrence of a phrase in a text. -/
def find? (phrase : Phrase) (s : List Char) : Option Occurrence :=
  (occurrences phrase s).head?

/-- Whether a text holds a phrase. -/
def holds (phrase : Phrase) (s : List Char) : Bool :=
  (find? phrase s).isSome

/-- How many times a text holds a phrase. -/
def count (phrase : Phrase) (s : List Char) : Nat :=
  (occurrences phrase s).length

/-- Nothing is found in the empty text. -/
@[simp] theorem occurrencesFrom_nil (phrase : Phrase) (before : Option Char) :
    occurrencesFrom phrase before [] = [] := by
  simp [occurrencesFrom]

end SqlReview.Search

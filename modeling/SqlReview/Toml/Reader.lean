/-!
# Readers

A reader takes a part of a TOML document from the start of a text, or refuses.
-/

namespace SqlReview.Toml

/-- A reader of a part of a document. -/
abbrev Reader := StateT (List Char) Option

/-- The characters of a class at the start of the text. -/
def takeWhile (cls : Char → Bool) : Reader (List Char) :=
  fun s => some (s.takeWhile cls, s.dropWhile cls)

/-- The given text, if it stands at the start. -/
def literally? (expected : List Char) : Reader Bool :=
  fun s =>
    if expected.isPrefixOf s then some (true, s.drop expected.length) else some (false, s)

/-- The given text, which has to stand at the start. -/
def literally (expected : List Char) : Reader Unit := do
  if ← literally? expected then pure () else failure

/-- The character at the start, which stays there. -/
def peek? : Reader (Option Char) :=
  fun s => some (s.head?, s)

end SqlReview.Toml

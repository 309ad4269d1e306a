/-!
# Styled text

Text in pieces, some of which have a style. Printed in colour a styled piece stands between two
escape sequences; printed plain it stands alone.
-/

namespace SqlReview.Report

/-- The look of a piece of text. -/
inductive Style where
  | boldCyan
  | boldRed
  | yellow
  | blue
  | green
  | red
  | dim
  | bold
  deriving Repr, DecidableEq

/-- The parameters of the escape sequence that turns a style on. -/
def Style.code : Style → String
  | .boldCyan => "1;36"
  | .boldRed => "1;31"
  | .yellow => "33"
  | .blue => "34"
  | .green => "32"
  | .red => "31"
  | .dim => "2"
  | .bold => "1"

/-- A piece of text, with a style or without one. -/
structure Piece where
  style : Option Style := none
  text : String
  deriving Repr, DecidableEq

/-- The escape sequence with the given parameters. -/
def escapeSequence (code : String) : String :=
  "\x1B[" ++ code ++ "m"

/-- A piece as it is printed. -/
def Piece.print (colored : Bool) (p : Piece) : String :=
  match p.style with
  | some style =>
    if colored then escapeSequence style.code ++ p.text ++ escapeSequence "0" else p.text
  | none => p.text

/-- Pieces as they are printed one after the other. -/
def printPieces (colored : Bool) (pieces : List Piece) : String :=
  String.join (pieces.map (·.print colored))

end SqlReview.Report

/-!
# Styled texts

A styled text is a row of pieces: plain characters, and changes of style that a terminal shows by
escape sequences. Dropping the changes of style gives the plain text.
-/
namespace Foldmark.Text

inductive Style where
  | reset
  | bold
  | dim
  | red
  | green
  | yellow
  | blue
  | magenta
  | cyan
  | gray
  deriving Repr, DecidableEq

/-- The number of a style in an escape sequence. -/
def Style.code : Style → Nat
  | .reset => 0
  | .bold => 1
  | .dim => 2
  | .red => 31
  | .green => 32
  | .yellow => 33
  | .blue => 34
  | .magenta => 35
  | .cyan => 36
  | .gray => 90

def escapeChar : Char := '\x1b'

def Style.escape (style : Style) : List Char :=
  escapeChar :: '[' :: (toString style.code).toList ++ ['m']

inductive Piece where
  | style (style : Style)
  | text (text : List Char)
  deriving Repr, DecidableEq

abbrev Styled := List Piece

namespace Styled

def ofString (s : String) : Piece := .text s.toList

/-- The text without its styles. -/
def plain (pieces : Styled) : List Char :=
  pieces.flatMap fun
    | .style _ => []
    | .text text => text

/-- The text with every change of style as an escape sequence. -/
def coloured (pieces : Styled) : List Char :=
  pieces.flatMap fun
    | .style style => style.escape
    | .text text => text

def render (colour : Bool) (pieces : Styled) : String :=
  String.ofList (if colour then pieces.coloured else pieces.plain)

@[simp] theorem plain_append (a b : Styled) : plain (a ++ b) = plain a ++ plain b := by
  simp [plain]

theorem plain_flatMap {α : Type} (f : α → Styled) (parts : List α) :
    plain (parts.flatMap f) = parts.flatMap fun part => (f part).plain :=
  List.flatMap_assoc

theorem coloured_flatMap {α : Type} (f : α → Styled) (parts : List α) :
    coloured (parts.flatMap f) = parts.flatMap fun part => (f part).coloured :=
  List.flatMap_assoc

end Styled

end Foldmark.Text

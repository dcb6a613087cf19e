import Foldmark.Fold
import Foldmark.Text.Lines
import Foldmark.Text.Styled

/-!
# The fold gutter

A source text with a gutter at its left: line number, fold token and one bar a level. Notes at the
right name the regions that start on a line and the faults of the line. A view is printed without
colours or with them.
-/
namespace Foldmark

open Text (Style)

/-- Pads a text with blanks on the left. -/
def padLeft (width : Nat) (s : List Char) : List Char :=
  List.replicate (width - s.length) ' ' ++ s

/-- The colour of a nesting level; six colours take turns. -/
def levelStyle (level : Nat) : Style :=
  if level = 0 then .gray
  else
    match (level - 1) % 6 with
    | 0 => .blue
    | 1 => .green
    | 2 => .yellow
    | 3 => .magenta
    | 4 => .cyan
    | _ => .red

namespace Gutter

/-! ## Rows -/

/-- What is shown of one line. -/
structure Row where
  number : Nat
  directive : FoldDirective
  bars : List Char
  text : List Char
  notes : List (List Char)
  deriving Repr, DecidableEq

def regionNote (region : Region) : Except Overflow (List Char) := do
  let label ← region.label
  let suffix := if region.fold then " [folded]" else ""
  return "▸ ".toList ++ label.toList ++ suffix.toList

def faultNote (fault : Fault) : List Char :=
  "! ".toList ++ fault.message.toList

/-- The remarks on a line: the regions that start there, then its faults. -/
def notes (outline : Outline) (line : Nat) : Except Overflow (List (List Char)) := do
  let starting :=
    if (outline.directive line).isStart then
      outline.regions.filter fun region => region.startLine == line
    else []
  let labels ← starting.mapM regionNote
  let faults := outline.faults.filter fun fault => fault.line == line
  return labels ++ faults.map faultNote

def row (labels : Bool) (outline : Outline) (number : Nat) (text : List Char) :
    Except Overflow Row := do
  let directive := outline.directive number
  let bars ← Count.repeated "│" directive.level
  let remarks ← (if labels then notes outline number else .ok [])
  return ⟨number, directive, bars, text, remarks⟩

/-- The texts that are shown: as many rows of the text view as the source has lines. -/
def texts (source : List Char) : List (List Char) :=
  ((Text.visualRows source).take (Text.lineCount source)).map Text.dropReturns

/-- The view of a source beside the outline of its document. -/
def view (labels : Bool) (source : String) (outline : Outline) : Except Overflow (List Row) :=
  (texts source.toList).zipIdx.mapM fun (text, i) => row labels outline (i + 1) text

/-! ## Printing -/

def Row.plain (width : Nat) (row : Row) : List Char :=
  padLeft width (toString row.number).toList ++ [' '] ++ padLeft 3 row.directive.token.toList ++
    [' '] ++ row.bars ++ [' '] ++ row.text ++ row.notes.flatMap (fun note => [' ', ' '] ++ note) ++
    ['\n']

/-- The colour of a note: faults are red, regions have the colour of the level. -/
def Row.noteStyle (row : Row) (note : List Char) : Style :=
  if note.head? = some '!' then .red else levelStyle row.directive.level

def Row.coloured (width : Nat) (row : Row) : List Char :=
  let dim := Style.dim.escape
  let reset := Style.reset.escape
  let front := (levelStyle row.directive.level).escape
  dim ++ padLeft width (toString row.number).toList ++ [' '] ++
    padLeft 3 row.directive.token.toList ++ reset ++ [' '] ++ front ++ row.bars ++ reset ++ [' '] ++
    row.text ++
    row.notes.flatMap (fun note =>
      [' ', ' '] ++ dim ++ (row.noteStyle note).escape ++ note ++ reset) ++
    ['\n']

/-- The width of the line numbers of a text. -/
def numberWidth (lineTotal : Nat) : Nat :=
  max (toString lineTotal).length 3

/-- The view as a text. -/
def render (labels colour : Bool) (source : String) (outline : Outline) :
    Except Overflow String := do
  let width := numberWidth (Text.lineCount source.toList)
  let shown ← view labels source outline
  return String.ofList (shown.flatMap (if colour then Row.coloured width else Row.plain width))

end Gutter

end Foldmark

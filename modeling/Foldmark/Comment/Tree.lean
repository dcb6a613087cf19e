import Foldmark.Marker.Basic
import Foldmark.Neighbours
import Foldmark.Text.Lines

/-!
# Comments in a syntax tree

The comments of a source are nodes of its syntax tree. A walk through the tree finds them, and their
texts are laid out by line. Places in a source are counted in characters.
-/
namespace Foldmark.Comment

/-- Where a node lies: the row on which it begins, counted from zero, its first character, and the
character behind its last. -/
structure Span where
  row : Nat
  start : Nat
  stop : Nat
  deriving Repr, DecidableEq

def Span.text (source : List Char) (span : Span) : List Char :=
  (source.drop span.start).take (span.stop - span.start)

/-- Nodes that stand beside each other: the first with the nodes inside it, and those after it. -/
inductive Forest where
  | nil
  | node (kind : String) (span : Span) (inside after : Forest)
  deriving Repr, DecidableEq

/-- The nodes of the given kinds in the order of a walk, which does not look inside them. -/
def Forest.comments (kinds : List String) : Forest → List Span
  | nil => []
  | node kind span inside after =>
    (if kinds.contains kind then [span] else inside.comments kinds) ++ after.comments kinds

/-- The comments in a source with the given tree, each with the line on which it begins and its
text. -/
def found (kinds : List String) (source : List Char) (tree : Forest) : List (Nat × List Char) :=
  (tree.comments kinds).map fun span => (span.row + 1, span.text source)

/-- The lines of a comment that begins on the given line. -/
def entries (line : Nat) (text : List Char) : List CommentLine :=
  (Text.lines text).zipIdx.map fun (content, i) => ⟨line + i, String.ofList content⟩

/-- The comment lines of a source with the given tree; of several comments on one line the first
counts. -/
def lines (kinds : List String) (source : List Char) (tree : Forest) : List CommentLine :=
  dedupBy CommentLine.line
    ((found kinds source tree).flatMap fun (line, text) => entries line text)

end Foldmark.Comment

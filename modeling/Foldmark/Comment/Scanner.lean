import Foldmark.Comment.Extraction
import Foldmark.Comment.JavaScript
import Foldmark.Comment.Python

/-!
# Scanners as a parser

The scanners of the languages know enough to tell comments from everything else. Together they stand
in for a parser; their trees hold the comments and nothing more.
-/
namespace Foldmark

/-- The pieces into which a language cuts a source. -/
def Language.pieces (language : Language) (source : String) : List Comment.Piece :=
  match language with
  | .python => Comment.cut Comment.Python.rule {} source.toList
  | .javaScript => Comment.cut (Comment.JavaScript.rule false) {} source.toList
  | .typeScript => Comment.cut (Comment.JavaScript.rule true) {} source.toList

def Comment.scanner : Comment.Parser := fun language =>
  .ok fun source => some (tree (language.pieces source))

end Foldmark

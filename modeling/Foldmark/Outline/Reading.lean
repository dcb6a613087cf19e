import Foldmark.Marker.Recognizer
import Foldmark.Outline.Pairing

/-!
# Outlines of comment lines

The whole way from comment lines to an outline: the lines are read as markers, and the markers are
paired.
-/
namespace Foldmark

def Outline.ofCommentLines (settings : Settings) (entries : List CommentLine) : Outline :=
  Outline.ofMarkers ((Recognizer.ofSettings settings).collect entries)

end Foldmark

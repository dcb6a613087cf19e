/-!
# Markers and comment lines

A comment line is one physical line of comment text. A marker is what such a line says about
regions: that one starts here or that one ends here.
-/
namespace Foldmark

inductive MarkerKind where
  | start
  | finish
  deriving Repr, DecidableEq

def MarkerKind.label : MarkerKind → String
  | .start => "start"
  | .finish => "end"

structure Marker where
  line : Nat
  kind : MarkerKind
  name : Option String := none
  /-- For a start marker: the region is folded when first shown. -/
  foldDefault : Bool := false
  deriving Repr, DecidableEq

structure CommentLine where
  line : Nat
  text : String
  deriving Repr, DecidableEq

end Foldmark

import Foldmark.Region

/-!
# Fold directives

What a line of a document says to an editor that folds by level: a line that opens a region
starts a fold, any other line of a region continues the fold of the deepest region around it, and
every other line is outside all folds.
-/
namespace Foldmark

inductive FoldDirective where
  | startsAt (level : Nat)
  | continues (level : Nat)
  | noFold
  deriving Repr, DecidableEq

namespace FoldDirective

/-- The fold depth of the line, zero outside all regions. -/
def level : FoldDirective → Nat
  | startsAt level => level
  | continues level => level
  | noFold => 0

def isStart : FoldDirective → Bool
  | startsAt _ => true
  | _ => false

/-- The token that an editor's fold expression yields for the line. -/
def token : FoldDirective → String
  | startsAt level => ">" ++ toString level
  | continues level => toString level
  | noFold => "0"

end FoldDirective

namespace Outline

/-- The directive of a line, counted from one. -/
def directive (outline : Outline) (line : Nat) : FoldDirective :=
  let starting := (outline.regions.filter fun region => region.startLine == line).map Region.level
  let around := (outline.regions.filter fun region =>
    region.startLine < line && line ≤ region.endLine).map Region.level
  match starting.max? with
  | some level => .startsAt level
  | none =>
    match around.max? with
    | some level => .continues level
    | none => .noFold

/-- The directives of the lines from one to `lineCount`. -/
def directives (outline : Outline) (lineCount : Nat) : List FoldDirective :=
  (List.range lineCount).map fun i => outline.directive (i + 1)

def foldTokens (outline : Outline) (lineCount : Nat) : List String :=
  (outline.directives lineCount).map FoldDirective.token

end Outline

end Foldmark

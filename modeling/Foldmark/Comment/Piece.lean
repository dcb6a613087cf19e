import Foldmark.Comment.Tree

/-!
# Pieces of a source

A source is cut into pieces, some of which are comments. What the next piece is depends on a state
that a language chooses; here only the cutting is described, so that it loses nothing whatever the
language. The comments are then the nodes of a tree.
-/
namespace Foldmark.Comment

structure Piece where
  isComment : Bool
  text : List Char
  deriving Repr, DecidableEq

/-- What a language says about the piece that begins at a character: whether it is a comment, how
many characters it has after the first, and the state after it. -/
structure Step (σ : Type) where
  isComment : Bool := false
  more : Nat := 0
  state : σ

/-- The rule of a language, given the state, the first character of a piece and what follows. -/
abbrev Rule (σ : Type) := σ → Char → List Char → Step σ

def cut {σ : Type} (rule : Rule σ) : σ → List Char → List Piece
  | _, [] => []
  | state, c :: rest =>
    let step := rule state c rest
    ⟨step.isComment, c :: rest.take step.more⟩ :: cut rule step.state (rest.drop step.more)
  termination_by _ source => source.length
  decreasing_by simp only [List.length_drop, List.length_cons]; omega

/-- The kind of the nodes of comments. -/
def commentKind : String := "comment"

/-- A node for every comment among the pieces, where the first piece begins on the given row and at
the given character. -/
def nodes : Nat → Nat → List Piece → Forest
  | _, _, [] => .nil
  | row, start, piece :: rest =>
    let stop := start + piece.text.length
    let later := nodes (row + piece.text.count '\n') stop rest
    if piece.isComment then .node commentKind ⟨row, start, stop⟩ .nil later else later

/-- The tree of a source that is cut into pieces. -/
def tree (pieces : List Piece) : Forest :=
  .node "program" ⟨0, 0, (pieces.flatMap Piece.text).length⟩ (nodes 0 0 pieces) .nil

end Foldmark.Comment

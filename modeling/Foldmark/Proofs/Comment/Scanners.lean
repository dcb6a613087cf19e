import Foldmark.Comment.Scanner
import Foldmark.Proofs.Comment.Placement

/-!
# Scanners in order

Whatever the rule of a language is, cutting loses nothing: the pieces of a source make up the source.
The nodes of the comments lie where the pieces do, so the scanners are as faithful as a parser has to
be.
-/
namespace Foldmark

namespace Comment

/-- The pieces make up the source. -/
theorem flatMap_text_cut {σ : Type} (rule : Rule σ) (state : σ) (source : List Char) :
    (cut rule state source).flatMap Piece.text = source := by
  fun_induction cut rule state source with
  | case1 => rfl
  | case2 state c rest step ih =>
    rw [List.flatMap_cons, ih, List.cons_append, List.take_append_drop]

/-- The comments among the pieces with the lines on which they begin, where the first piece begins
on the given line. -/
def located : Nat → List Piece → List (Nat × List Char)
  | _, [] => []
  | line, piece :: rest =>
    let later := located (line + piece.text.count '\n') rest
    if piece.isComment then (line, piece.text) :: later else later

section

variable {kinds : List String}

lemma comments_nodes_cons (hkind : commentKind ∈ kinds) (row start : Nat) (piece : Piece)
    (pieces : List Piece) :
    (nodes row start (piece :: pieces)).comments kinds =
      (if piece.isComment then [⟨row, start, start + piece.text.length⟩] else []) ++
        (nodes (row + piece.text.count '\n') (start + piece.text.length) pieces).comments kinds := by
  rw [nodes]
  split_ifs
  · simp [Forest.comments, hkind]
  · rfl

lemma comments_tree (hroot : "program" ∉ kinds) (pieces : List Piece) :
    (tree pieces).comments kinds = (nodes 0 0 pieces).comments kinds := by
  simp [tree, Forest.comments, hroot]

lemma text_of_append (before text after : List Char) (row : Nat) :
    Span.text (before ++ (text ++ after)) ⟨row, before.length, before.length + text.length⟩ = text := by
  simp [Span.text]

/-- The nodes of pieces lie behind what stands before the pieces, and in their order. -/
lemma inOrder_nodes (hkind : commentKind ∈ kinds) (before : List Char) (pieces : List Piece) :
    (∀ span ∈ (nodes (before.count '\n') before.length pieces).comments kinds,
        before.length ≤ span.start) ∧
      InOrder (before ++ pieces.flatMap Piece.text)
        ((nodes (before.count '\n') before.length pieces).comments kinds) := by
  induction pieces generalizing before with
  | nil => exact ⟨by simp [nodes, Forest.comments], by simp [nodes, Forest.comments],
      by simp [nodes, Forest.comments], .nil⟩
  | cons piece pieces ih =>
    obtain ⟨hbehind, hlater⟩ := ih (before ++ piece.text)
    rw [List.count_append, List.length_append] at hbehind hlater
    rw [List.append_assoc] at hlater
    rw [comments_nodes_cons hkind, List.flatMap_cons]
    split_ifs
    · -- the comment ends where the rest begins
      refine ⟨?_, ?_, ?_, ?_⟩
      · rw [List.singleton_append, List.forall_mem_cons]
        exact ⟨Nat.le_refl _, fun span hspan => (Nat.le_add_right _ _).trans (hbehind span hspan)⟩
      · rw [List.singleton_append, List.forall_mem_cons]
        exact ⟨by simp, hlater.within⟩
      · rw [List.singleton_append, List.forall_mem_cons]
        exact ⟨by simp, hlater.rows⟩
      · rw [List.singleton_append, List.pairwise_cons]
        exact ⟨hbehind, hlater.apart⟩
    · rw [List.nil_append]
      exact ⟨fun span hspan => (Nat.le_add_right _ _).trans (hbehind span hspan), hlater⟩

/-- The texts of the nodes are those of the pieces. -/
lemma map_comments_nodes (hkind : commentKind ∈ kinds) (row : Nat) (before : List Char)
    (pieces : List Piece) :
    ((nodes row before.length pieces).comments kinds).map
        (fun span => (span.row + 1, span.text (before ++ pieces.flatMap Piece.text))) =
      located (row + 1) pieces := by
  induction pieces generalizing row before with
  | nil => rfl
  | cons piece pieces ih =>
    have ih := ih (row + piece.text.count '\n') (before ++ piece.text)
    rw [List.length_append, List.append_assoc, Nat.add_right_comm] at ih
    rw [comments_nodes_cons hkind, List.map_append, List.flatMap_cons, ih, located]
    split_ifs
    · rw [List.map_singleton, text_of_append, List.singleton_append]
    · rfl

end

lemma found_tree {kinds : List String} (hkind : commentKind ∈ kinds) (hroot : "program" ∉ kinds)
    (pieces : List Piece) :
    found kinds (pieces.flatMap Piece.text) (tree pieces) = located 1 pieces := by
  rw [found, comments_tree hroot]
  exact map_comments_nodes hkind 0 [] pieces

end Comment

namespace Language

lemma commentKind_mem (language : Language) : Comment.commentKind ∈ language.commentKinds := by
  cases language <;> decide

lemma program_not_mem (language : Language) : "program" ∉ language.commentKinds := by
  cases language <;> decide

lemma flatMap_text_pieces (language : Language) (source : String) :
    (language.pieces source).flatMap Comment.Piece.text = source.toList := by
  cases language <;> exact Comment.flatMap_text_cut _ _ _

end Language

namespace Comment

lemma inOrder_tree (language : Language) (source : String) :
    InOrder source.toList ((tree (language.pieces source)).comments language.commentKinds) := by
  have horder := (inOrder_nodes language.commentKind_mem [] (language.pieces source)).2
  rwa [List.nil_append, language.flatMap_text_pieces, List.count_nil, List.length_nil,
    ← comments_tree language.program_not_mem] at horder

/-- The scanners give the comments of every source in order. -/
theorem scanner_isFaithful : scanner.IsFaithful := by
  intro language parse source tree hparser htree
  obtain rfl := Except.ok.inj hparser
  obtain rfl := Option.some.inj htree
  exact inOrder_tree language source

end Comment

end Foldmark

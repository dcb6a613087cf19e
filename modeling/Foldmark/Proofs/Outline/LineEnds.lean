import Foldmark.Proofs.Comment.JavaScriptReturns
import Foldmark.Proofs.Comment.PythonReturns
import Mathlib.Data.List.Permutation

/-!
# Outlines and line ends

The outline of a source does not depend on its line ends, if the parser finds the same comments. A
carriage return that stays in a comment line stands at the end of its text, and a recognizer trims
every text before it looks for comment signs, sentinels and keywords. The scanners of all languages find
the same comments.
-/
namespace Foldmark

/-! ## Blanks around comment lines -/

namespace Recognizer

variable (r : Recognizer)

lemma parseLine_trim (line : Nat) (text : String) :
    r.parseLine line (String.ofList (Text.trim text.toList)) = r.parseLine line text := by
  simp only [parseLine, String.toList_ofList, Text.trim_trim]

lemma collect_map_trimmed (entries : List CommentLine) :
    r.collect (entries.map CommentLine.trimmed) = r.collect entries := by
  simp only [collect, List.filterMap_map, Function.comp_def, CommentLine.trimmed, parseLine_trim]

end Recognizer

lemma Outline.ofCommentLines_map_trimmed (settings : Settings) (entries : List CommentLine) :
    ofCommentLines settings (entries.map CommentLine.trimmed) = ofCommentLines settings entries := by
  rw [ofCommentLines, Recognizer.collect_map_trimmed, ofCommentLines]

/-! ## Sources -/

/-- The scanners find the same comments with and without carriage returns. -/
theorem Comment.corresponds_scanner (language : Language) {source : String}
    (h : '\r' ∉ source.toList) :
    List.Forall₂ Corresponds
      (found language.commentKinds source.toList (tree (language.pieces source)))
      (found language.commentKinds (Text.withReturns source.toList)
        (tree (language.pieces (String.ofList (Text.withReturns source.toList))))) := by
  have hfound : ∀ source : String,
      found language.commentKinds source.toList (tree (language.pieces source)) =
        located 1 (language.pieces source) := by
    intro source
    rw [← language.flatMap_text_pieces source]
    exact found_tree language.commentKind_mem language.program_not_mem _
  have hreturns := hfound (String.ofList (Text.withReturns source.toList))
  rw [String.toList_ofList] at hreturns
  rw [hfound, hreturns]
  simp only [Language.pieces, String.toList_ofList]
  cases language with
  | python =>
    have hsound : Python.State.IsSound {} := by simp [Python.State.IsSound]
    exact Python.ignoresReturns.located_withReturns {} hsound 1 _ h
  | javaScript => exact (JavaScript.ignoresReturns false).located_withReturns {} trivial 1 _ h
  | typeScript => exact (JavaScript.ignoresReturns true).located_withReturns {} trivial 1 _ h

namespace Outline

/-- If a parser finds the same comments in a source with and without carriage returns before the line
feeds, there is one outline for both. They have the same number of lines as well. -/
theorem ofSource_withReturns (parser : Comment.Parser) (settings : Settings) (language : Language)
    (source : String) (parse : String → Option Comment.Forest) (tree tree' : Comment.Forest)
    (h : '\r' ∉ source.toList) (hparser : parser language = .ok parse)
    (htree : parse source = some tree)
    (htree' : parse (String.ofList (Text.withReturns source.toList)) = some tree')
    (hsame : List.Forall₂ Comment.Corresponds
      (Comment.found language.commentKinds source.toList tree)
      (Comment.found language.commentKinds (Text.withReturns source.toList) tree')) :
    (∃ outline, ofSource parser settings language source = .ok outline ∧
        ofSource parser settings language (String.ofList (Text.withReturns source.toList)) =
          .ok outline) ∧
      Text.lineCount (Text.withReturns source.toList) = Text.lineCount source.toList := by
  have hlines := Language.commentLines_eq_ok_iff.mpr ⟨parse, tree, hparser, htree, rfl⟩
  have hlines' := Language.commentLines_eq_ok_iff.mpr ⟨parse, tree', hparser, htree', rfl⟩
  rw [String.toList_ofList] at hlines'
  refine ⟨⟨_, by rw [ofSource, hlines, Except.map], ?_⟩, Text.lineCount_withReturns source.toList⟩
  rw [ofSource, hlines', Except.map, ← ofCommentLines_map_trimmed, Comment.map_trimmed_lines h hsame,
    ofCommentLines_map_trimmed]

/-- A comment that takes the carriage return along, a template with an escaped line end, and a comment
of two lines. -/
def mixedSource : String := "<!-- region a +\n`\\\n`\n/*\nendregion */"

lemma ofSource_mixedSource :
    ofSource Comment.scanner { caseSensitive := true } .javaScript mixedSource =
      .ok ⟨[⟨1, 5, 1, some "a", true⟩], []⟩ := by
  cbv

theorem ofSource_withReturns_mixed :
    '\r' ∉ mixedSource.toList ∧
      ofSource Comment.scanner { caseSensitive := true } .javaScript
          "<!-- region a +\r\n`\\\r\n`\r\n/*\r\nendregion */" =
        .ok ⟨[⟨1, 5, 1, some "a", true⟩], []⟩ := by
  have hclear : '\r' ∉ mixedSource.toList := by decide
  have hreturns : String.ofList (Text.withReturns mixedSource.toList) =
      "<!-- region a +\r\n`\\\r\n`\r\n/*\r\nendregion */" := by decide
  obtain ⟨⟨outline, houtline, hsame⟩, -⟩ := ofSource_withReturns Comment.scanner
    { caseSensitive := true } .javaScript mixedSource _ _ _ hclear rfl rfl rfl
    (Comment.corresponds_scanner .javaScript hclear)
  rw [hreturns, ← houtline, ofSource_mixedSource] at hsame
  exact ⟨hclear, hsame⟩

end Outline

end Foldmark

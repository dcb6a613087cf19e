import Foldmark.Comment.Extraction
import Foldmark.Proofs.Marker.Collection
import Foldmark.Proofs.Text.Breaks

/-!
# Where comment lines stand

Of a parser it is only asked that the comments which a walk through its trees meets lie one behind the
other in the source, and that their rows count the line feeds before them (`InOrder`). Then the lines
of a comment are lines of the source.
-/
namespace Foldmark

namespace Text

lemma lineCount_cons (c : Char) (s : List Char) :
    lineCount (c :: s) = if c = '\n' then lineCount s + 1 else max 1 (lineCount s) := by
  unfold lineCount
  split_ifs with hc
  · rw [hc, rows_cons_feed, List.length_cons]
  · cases hrows : rows s with
    | nil => simp [rows, hc, hrows]
    | cons row more => simp [rows_cons hc hrows]

/-- A text has no more lines than one that goes on with it. -/
lemma lineCount_le_append (a b : List Char) : lineCount a ≤ lineCount (a ++ b) := by
  induction a with
  | nil => exact Nat.zero_le _
  | cons c a ih =>
    rw [List.cons_append, lineCount_cons, lineCount_cons]
    split_ifs <;> omega

/-- The line feeds before a text and its lines are lines of the whole. -/
lemma count_add_lineCount_le (a b : List Char) :
    a.count '\n' + lineCount b ≤ lineCount (a ++ b) := by
  induction a with
  | nil => simp
  | cons c a ih =>
    rw [List.cons_append, lineCount_cons]
    by_cases hc : c = '\n'
    · rw [if_pos hc, hc, List.count_cons_self]
      omega
    · rw [if_neg hc, List.count_cons_of_ne hc]
      omega

end Text

namespace Comment

open Text (lineCount)

/-- The spans lie in the source one behind the other, and their rows are counted by line feeds. -/
structure InOrder (source : List Char) (spans : List Span) : Prop where
  within : ∀ span ∈ spans, span.start ≤ span.stop ∧ span.stop ≤ source.length
  rows : ∀ span ∈ spans, span.row = (source.take span.start).count '\n'
  apart : spans.Pairwise fun a b => a.stop ≤ b.start

/-- A parser that gives the comments of all sources in order. -/
def Parser.IsFaithful (parser : Parser) : Prop :=
  ∀ language parse source tree, parser language = .ok parse → parse source = some tree →
    InOrder source.toList (tree.comments language.commentKinds)

/-- A span cuts its text out of the source. -/
lemma Span.append_text {span : Span} (h : span.start ≤ span.stop) (source : List Char) :
    source = source.take span.start ++ (span.text source ++ source.drop span.stop) := by
  have hstop : source.drop span.stop = (source.drop span.start).drop (span.stop - span.start) := by
    rw [List.drop_drop, Nat.add_sub_cancel' h]
  rw [Span.text, hstop, List.take_append_drop, List.take_append_drop]

/-- A comment and its lines lie among the lines of the source. -/
lemma InOrder.row_add_lineCount_le {source : List Char} {spans : List Span}
    (h : InOrder source spans) {span : Span} (hspan : span ∈ spans) :
    span.row + lineCount (span.text source) ≤ lineCount source := by
  have hsplit := Span.append_text (h.within span hspan).1 source
  have hlines := Text.lineCount_le_append (span.text source) (source.drop span.stop)
  have hbefore := Text.count_add_lineCount_le (source.take span.start)
    (span.text source ++ source.drop span.stop)
  rw [← hsplit, ← h.rows span hspan] at hbefore
  omega

lemma line_of_mem_entries {line : Nat} {text : List Char} {entry : CommentLine}
    (h : entry ∈ entries line text) : line ≤ entry.line ∧ entry.line < line + lineCount text := by
  obtain ⟨⟨content, i⟩, hmem, rfl⟩ := List.mem_map.mp h
  have hi := (List.mem_zipIdx' hmem).1
  rw [Text.lines, List.length_map] at hi
  exact ⟨Nat.le_add_right _ _, Nat.add_lt_add_left hi line⟩

/-- Every comment line belongs to a comment. -/
lemma exists_of_mem_lines {kinds : List String} {source : List Char} {tree : Forest}
    {entry : CommentLine} (h : entry ∈ lines kinds source tree) :
    ∃ span ∈ tree.comments kinds, entry ∈ entries (span.row + 1) (span.text source) := by
  obtain ⟨comment, hfound, hentry⟩ := List.mem_flatMap.mp (mem_of_mem_dedupBy _ _ _ h)
  obtain ⟨span, hspan, rfl⟩ := List.mem_map.mp hfound
  exact ⟨span, hspan, hentry⟩

/-- Every comment line stands on a line of the source. -/
theorem line_of_mem_lines {kinds : List String} {source : List Char} {tree : Forest}
    (horder : InOrder source (tree.comments kinds)) {entry : CommentLine}
    (h : entry ∈ lines kinds source tree) : 1 ≤ entry.line ∧ entry.line ≤ lineCount source := by
  obtain ⟨span, hspan, hentry⟩ := exists_of_mem_lines h
  have hline := line_of_mem_entries hentry
  have hlast := horder.row_add_lineCount_le hspan
  omega

end Comment

/-- There are comment lines where the parser has a tree for the source. -/
lemma Language.commentLines_eq_ok_iff {parser : Comment.Parser} {language : Language}
    {source : String} {found : List CommentLine} :
    language.commentLines parser source = .ok found ↔
      ∃ parse tree, parser language = .ok parse ∧ parse source = some tree ∧
        found = Comment.lines language.commentKinds source.toList tree := by
  unfold commentLines
  cases parser language with
  | error reason => simp
  | ok parse =>
    cases htree : parse source with
    | none => simp [htree]
    | some tree => simp [htree, eq_comm]

lemma Outline.ofSource_eq_ok_iff {parser : Comment.Parser} {settings : Settings}
    {language : Language} {source : String} {outline : Outline} :
    ofSource parser settings language source = .ok outline ↔
      ∃ found, language.commentLines parser source = .ok found ∧
        outline = ofCommentLines settings found := by
  unfold ofSource
  cases language.commentLines parser source <;> simp [Except.map, eq_comm]

end Foldmark

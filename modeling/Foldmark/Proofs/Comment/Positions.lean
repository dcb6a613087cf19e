import Foldmark.Proofs.Comment.Placement

/-!
# Comment lines in their order

The comments that a walk meets follow each other: one may begin on the line on which the one before it
ends, but on no earlier line. So the first of neighbours with one line is the only entry of this line
that is kept. Each line of a comment is cut out of one line of the source.
-/
namespace Foldmark

namespace Text

/-! ## The line around a place -/

lemma splitOn_feed (s : List Char) : ('\n' :: s).splitOn '\n' = [] :: s.splitOn '\n' := by
  simp [List.splitOn_eq_splitOnP, List.splitOnP_cons_eq_if_modifyHead]

lemma splitOn_append {text : List Char} (h : '\n' ∉ text) (after : List Char) :
    (text ++ after).splitOn '\n' = (after.splitOn '\n').modifyHead (text ++ ·) := by
  induction text with
  | nil => exact (congrFun List.modifyHead_id _).symm
  | cons c text ih =>
    rw [List.mem_cons, not_or] at h
    have ih := ih h.2
    simp only [List.splitOn_eq_splitOnP] at ih ⊢
    rw [List.cons_append, List.splitOnP_cons_eq_if_modifyHead, if_neg (by simpa using Ne.symm h.1),
      ih, List.modifyHead_modifyHead]
    rfl

/-- A piece without line feeds lies on the line that is counted by the line feeds before it. -/
lemma exists_row_around (before : List Char) {text : List Char} (h : '\n' ∉ text)
    (after : List Char) :
    ∃ row, ((before ++ (text ++ after)).splitOn '\n')[before.count '\n']? = some row ∧
      text <:+: row := by
  induction before with
  | nil =>
    obtain ⟨row, more, hrows⟩ := List.exists_cons_of_ne_nil (List.splitOn_ne_nil '\n' after)
    refine ⟨text ++ row, ?_, (List.prefix_append text row).isInfix⟩
    simp [splitOn_append h, hrows]
  | cons c before ih =>
    obtain ⟨row, hrow, hin⟩ := ih
    by_cases hc : c = '\n'
    · subst hc
      refine ⟨row, ?_, hin⟩
      rwa [List.cons_append, splitOn_feed, List.count_cons_self, List.getElem?_cons_succ]
    · have hclear : '\n' ∉ [c] := by simpa using Ne.symm hc
      have hline := splitOn_append hclear (before ++ (text ++ after))
      rw [List.singleton_append] at hline
      rw [List.cons_append, hline, List.count_cons_of_ne hc, List.getElem?_modifyHead, hrow]
      -- on the line of the piece the character stands in front
      by_cases hfirst : before.count '\n' = 0
      · exact ⟨c :: row, by simp [hfirst], hin.trans (List.suffix_cons c row).isInfix⟩
      · exact ⟨row, by simp [hfirst], hin⟩

lemma flatten_rows (s : List Char) : (rows s).flatten = s := by
  induction s with
  | nil => rfl
  | cons c s ih =>
    by_cases hc : c = '\n'
    · rw [hc, rows_cons_feed, List.flatten_cons, ih, List.singleton_append]
    · cases hrows : rows s with
      | nil => simp [rows, hc, (rows_eq_nil_iff s).mp hrows]
      | cons row more =>
        rw [hrows] at ih
        rw [rows_cons hc hrows, ← ih]
        simp

/-- A row stands behind as many line feeds as there are rows before it. -/
lemma exists_split_of_rows {s row : List Char} {i : Nat} (h : (rows s)[i]? = some row) :
    ∃ before after, s = before ++ (row ++ after) ∧ before.count '\n' = i := by
  induction s generalizing i with
  | nil => simp [rows] at h
  | cons c s ih =>
    cases i with
    | zero =>
      obtain ⟨more, hrows⟩ := List.head?_eq_some_iff.mp (List.head?_eq_getElem? ▸ h)
      refine ⟨[], more.flatten, ?_, rfl⟩
      rw [List.nil_append, ← List.flatten_cons, ← hrows, flatten_rows]
    | succ i =>
      by_cases hc : c = '\n'
      · rw [hc, rows_cons_feed, List.getElem?_cons_succ] at h
        obtain ⟨before, after, rfl, hcount⟩ := ih h
        exact ⟨'\n' :: before, after, by simp [hc], by simp [hcount]⟩
      · cases hrows : rows s with
        | nil => simp [rows, hc, hrows] at h
        | cons first more =>
          rw [rows_cons hc hrows, List.getElem?_cons_succ] at h
          obtain ⟨before, after, rfl, hcount⟩ := ih (i := i + 1) (by rwa [hrows])
          exact ⟨c :: before, after, by simp, by simp [hc, hcount]⟩

/-- What is dropped at the end of a row. -/
lemma dropFeed_append (row : List Char) :
    row = dropFeed row ++ ['\r', '\n'] ∨ row = dropFeed row ++ ['\n'] ∨
      row = dropFeed row ∧ ∀ body, row ≠ body ++ ['\n'] := by
  unfold dropFeed
  split
  next back hback => exact .inl (by simpa [List.reverse_eq_cons_iff] using hback)
  next back hreturn hback => exact .inr (.inl (by simpa [List.reverse_eq_cons_iff] using hback))
  next hother hfeed =>
    refine .inr (.inr ⟨rfl, fun body hbody => hfeed body.reverse ?_⟩)
    simp [hbody]

/-- A row without its line end begins the row and holds no line feed. -/
lemma dropFeed_of_mem_rows {s row : List Char} (h : row ∈ rows s) :
    dropFeed row <+: row ∧ '\n' ∉ dropFeed row := by
  obtain ⟨body, hbody, hrow⟩ := mem_rows_cases h
  -- the row has one line feed at most, and it is dropped
  have hcount : row.count '\n' ≤ 1 := by
    rcases hrow with rfl | rfl <;> simp [List.count_eq_zero.mpr hbody]
  have hdrop := dropFeed_append row
  generalize dropFeed row = line at hdrop
  rcases hdrop with rfl | rfl | ⟨rfl, hfeed⟩
  · exact ⟨List.prefix_append _ _, List.count_eq_zero.mp (by simpa using hcount)⟩
  · exact ⟨List.prefix_append _ _, List.count_eq_zero.mp (by simpa using hcount)⟩
  · rw [hrow.resolve_right (hfeed body)]
    exact ⟨List.prefix_rfl, hbody⟩

/-- A line stands in its text behind as many line feeds as there are lines before it. -/
lemma exists_split_of_lines {s line : List Char} {i : Nat} (h : (lines s)[i]? = some line) :
    '\n' ∉ line ∧ ∃ before after, s = before ++ (line ++ after) ∧ before.count '\n' = i := by
  rw [lines, List.getElem?_map, Option.map_eq_some_iff] at h
  obtain ⟨row, hrow, rfl⟩ := h
  obtain ⟨hbegins, hfeed⟩ := dropFeed_of_mem_rows (List.mem_of_getElem? hrow)
  obtain ⟨before, after, rfl, hcount⟩ := exists_split_of_rows hrow
  obtain ⟨ending, hending⟩ := hbegins
  refine ⟨hfeed, before, ending ++ after, ?_, hcount⟩
  rw [← List.append_assoc (dropFeed row), hending]

end Text

namespace Comment

open Text (lineCount)

/-! ## Comments in a tree -/

/-- The forest has a node of one of the kinds at the span, and no other such node around it. -/
inductive Forest.Shows (kinds : List String) (span : Span) : Forest → Prop
  | here {kind : String} {inside after : Forest} (hkind : kind ∈ kinds) :
      Shows kinds span (.node kind span inside after)
  | inside {kind : String} {place : Span} {inside after : Forest} (hkind : kind ∉ kinds)
      (h : Shows kinds span inside) : Shows kinds span (.node kind place inside after)
  | after {kind : String} {place : Span} {inside after : Forest} (h : Shows kinds span after) :
      Shows kinds span (.node kind place inside after)

/-- The walk meets all comments, and nothing inside them. -/
theorem Forest.mem_comments_iff {kinds : List String} {span : Span} {forest : Forest} :
    span ∈ forest.comments kinds ↔ forest.Shows kinds span := by
  induction forest with
  | nil => exact ⟨nofun, nofun⟩
  | node kind place inside after ihInside ihAfter =>
    rw [comments, List.mem_append, ihAfter]
    constructor
    · rintro (hmem | hmem)
      · split_ifs at hmem with hkind
        · obtain rfl := List.mem_singleton.mp hmem
          exact .here (List.contains_iff_mem.mp hkind)
        · exact .inside (fun h => hkind (List.contains_iff_mem.mpr h)) (ihInside.mp hmem)
      · exact .after hmem
    · rintro (hkind | ⟨hkind, h⟩ | h)
      · exact .inl (by simp [hkind])
      · exact .inl (by simpa [hkind] using ihInside.mpr h)
      · exact .inr h

lemma mem_entries_iff {line : Nat} {text : List Char} {entry : CommentLine} :
    entry ∈ entries line text ↔ ∃ i content, (Text.lines text)[i]? = some content ∧
      entry = ⟨line + i, String.ofList content⟩ := by
  simp only [entries, List.mem_map, Prod.exists, List.mem_zipIdx_iff_getElem?]
  constructor
  · rintro ⟨content, i, hcontent, rfl⟩
    exact ⟨i, content, hcontent, rfl⟩
  · rintro ⟨i, content, hcontent, rfl⟩
    exact ⟨content, i, hcontent, rfl⟩

lemma map_line_entries (line : Nat) (text : List Char) :
    (entries line text).map CommentLine.line = List.range' line (lineCount text) := by
  have hline : (entries line text).map CommentLine.line =
      ((Text.lines text).zipIdx.map Prod.snd).map (line + ·) := by
    rw [entries, List.map_map, List.map_map]
    rfl
  rw [hline, List.zipIdx_map_snd, List.map_add_range', Text.length_lines, Nat.add_zero]

/-- A comment ends on the line that its line feeds give, or before it. -/
lemma lineCount_le_count (s : List Char) : lineCount s ≤ s.count '\n' + 1 := by
  induction s with
  | nil => exact Nat.zero_le _
  | cons c s ih =>
    rw [Text.lineCount_cons]
    by_cases hc : c = '\n'
    · rw [if_pos hc, hc, List.count_cons_self]
      omega
    · rw [if_neg hc, List.count_cons_of_ne hc]
      omega

/-- The lines that comments reach are those of the entries. -/
theorem exists_mem_lines_iff (kinds : List String) (source : List Char) (tree : Forest)
    (line : Nat) :
    (∃ entry ∈ lines kinds source tree, entry.line = line) ↔
      ∃ span, tree.Shows kinds span ∧ span.row + 1 ≤ line ∧
        line < span.row + 1 + lineCount (span.text source) := by
  have hkept : ∀ all : List CommentLine,
      (∃ entry ∈ dedupBy CommentLine.line all, entry.line = line) ↔
        ∃ entry ∈ all, entry.line = line := by
    intro all
    have hfind := congrArg Option.isSome (find?_dedupBy CommentLine.line line all)
    rw [Bool.eq_iff_iff, List.find?_isSome, List.find?_isSome] at hfind
    simpa only [decide_eq_true_eq] using hfind
  have hentries : ∀ first text, (∃ entry ∈ entries first text, entry.line = line) ↔
      first ≤ line ∧ line < first + lineCount text := by
    intro first text
    rw [← List.mem_map, map_line_entries, List.mem_range'_1]
  rw [lines, hkept]
  constructor
  · rintro ⟨entry, hentry, hline⟩
    obtain ⟨comment, hfound, hentry⟩ := List.mem_flatMap.mp hentry
    obtain ⟨span, hspan, rfl⟩ := List.mem_map.mp hfound
    exact ⟨span, Forest.mem_comments_iff.mp hspan, (hentries _ _).mp ⟨entry, hentry, hline⟩⟩
  · rintro ⟨span, hspan, hline⟩
    obtain ⟨entry, hentry, hline⟩ := (hentries _ _).mpr hline
    have hfound := List.mem_map_of_mem (f := fun span => (span.row + 1, Span.text source span))
      (Forest.mem_comments_iff.mpr hspan)
    exact ⟨entry, List.mem_flatMap.mpr ⟨_, hfound, hentry⟩, hline⟩

/-! ## Comments in order -/

section

variable {kinds : List String} {source : List Char} {tree : Forest} {spans : List Span}

/-- The line feeds up to the end of a comment. -/
lemma InOrder.row_add_count (h : InOrder source spans) {span : Span} (hspan : span ∈ spans) :
    span.row + (span.text source).count '\n' = (source.take span.stop).count '\n' := by
  have hle := (h.within span hspan).1
  have htake : source.take span.stop = source.take span.start ++ span.text source := by
    rw [Span.text, ← List.take_add, Nat.add_sub_cancel' hle]
  rw [htake, List.count_append, h.rows span hspan]

/-- A comment does not begin before the line on which an earlier one ends. -/
lemma InOrder.le_row (h : InOrder source spans) {a b : Span} (ha : a ∈ spans) (hb : b ∈ spans)
    (hapart : a.stop ≤ b.start) : a.row + lineCount (a.text source) ≤ b.row + 1 := by
  have hcount : (source.take a.stop).count '\n' ≤ (source.take b.start).count '\n' :=
    (List.take_sublist_take_left hapart).count_le _
  have hlines := lineCount_le_count (a.text source)
  rw [← h.row_add_count ha, ← h.rows b hb] at hcount
  omega

/-- The lines of all comments come in their order. -/
lemma InOrder.pairwise_entries (h : InOrder source (tree.comments kinds)) :
    ((found kinds source tree).flatMap fun (line, text) => entries line text).Pairwise
      fun a b => a.line ≤ b.line := by
  rw [found, List.flatMap_map, List.pairwise_flatMap]
  constructor
  · intro span hspan
    have hlines : ((entries (span.row + 1) (span.text source)).map CommentLine.line).Pairwise
        (· < ·) := by
      rw [map_line_entries]
      exact List.pairwise_lt_range'
    exact (List.pairwise_map.mp hlines).imp Nat.le_of_lt
  · refine h.apart.imp_of_mem fun {a b} ha hb hapart x hx y hy => ?_
    have hlast := (line_of_mem_entries hx).2
    have hfirst := (line_of_mem_entries hy).1
    have hrow := h.le_row ha hb hapart
    omega

theorem InOrder.lines_pairwise (h : InOrder source (tree.comments kinds)) :
    (lines kinds source tree).Pairwise fun a b => a.line < b.line :=
  dedupBy_pairwise CommentLine.line _ h.pairwise_entries

/-- The text of an entry is cut out of the line of the source on which it stands. -/
theorem InOrder.exists_row_of_mem_lines (h : InOrder source (tree.comments kinds))
    {entry : CommentLine} (hentry : entry ∈ lines kinds source tree) :
    '\n' ∉ entry.text.toList ∧ ∃ row, (source.splitOn '\n')[entry.line - 1]? = some row ∧
      entry.text.toList <:+: row := by
  obtain ⟨span, hspan, hentry⟩ := exists_of_mem_lines hentry
  obtain ⟨i, content, hcontent, rfl⟩ := mem_entries_iff.mp hentry
  obtain ⟨hfeed, front, back, htext, rfl⟩ := Text.exists_split_of_lines hcontent
  have hsource : source = (source.take span.start ++ front) ++
      (content ++ (back ++ source.drop span.stop)) := by
    have hsplit := Span.append_text (h.within span hspan).1 source
    rw [htext] at hsplit
    simpa only [List.append_assoc] using hsplit
  obtain ⟨row, hrow, hin⟩ := Text.exists_row_around (source.take span.start ++ front) hfeed
    (back ++ source.drop span.stop)
  rw [← hsource, List.count_append, ← h.rows span hspan] at hrow
  rw [String.toList_ofList, Nat.add_right_comm, Nat.add_sub_cancel]
  exact ⟨hfeed, row, hrow, hin⟩

end

end Comment

namespace Language

/-- Where a parser gives a tree with its comments in order, the comment lines of the source ascend
strictly. They stand on the lines of the source that comments reach, one on each, and the text of each
is a part of its line. -/
theorem commentLines_one_per_line (parser : Comment.Parser) (language : Language) (source : String)
    (parse : String → Option Comment.Forest) (tree : Comment.Forest)
    (hparser : parser language = .ok parse) (htree : parse source = some tree)
    (horder : Comment.InOrder source.toList (tree.comments language.commentKinds)) :
    ∃ found, language.commentLines parser source = .ok found ∧
      found.Pairwise (fun a b => a.line < b.line) ∧
      (∀ entry ∈ found,
        1 ≤ entry.line ∧ entry.line ≤ (Text.lines source.toList).length ∧
          '\n' ∉ entry.text.toList ∧
          ∃ row, (source.toList.splitOn '\n')[entry.line - 1]? = some row ∧
            entry.text.toList <:+: row) ∧
      ∀ line, (∃ entry ∈ found, entry.line = line) ↔
        ∃ span, tree.Shows language.commentKinds span ∧ span.row + 1 ≤ line ∧
          line < span.row + 1 + (Text.lines (span.text source.toList)).length := by
  have hfound := commentLines_eq_ok_iff.mpr ⟨parse, tree, hparser, htree, rfl⟩
  refine ⟨_, hfound, horder.lines_pairwise, fun entry hentry => ?_, fun line => ?_⟩
  · obtain ⟨hfirst, hlast⟩ := Comment.line_of_mem_lines horder hentry
    rw [Text.length_lines]
    exact ⟨hfirst, hlast, horder.exists_row_of_mem_lines hentry⟩
  · simp only [Text.length_lines]
    exact Comment.exists_mem_lines_iff _ _ _ line

/-- A comment of two lines, a call with a comment in its brackets, and a comment behind it on the
line. -/
def crowdedSource : String := "/*a\nb*/f(/*c*/)//d\n"

def crowdedTree : Comment.Forest :=
  .node "program" ⟨0, 0, 19⟩
    (.node "comment" ⟨0, 0, 7⟩ .nil
      (.node "call" ⟨1, 7, 15⟩ (.node "comment" ⟨1, 9, 14⟩ .nil .nil)
        (.node "comment" ⟨1, 15, 18⟩ .nil .nil))) .nil

/-- Three comments reach the second line, which has one entry. -/
theorem commentLines_one_per_line_crowded :
    Comment.InOrder crowdedSource.toList (crowdedTree.comments javaScript.commentKinds) ∧
      ∃ found, javaScript.commentLines (fun _ => .ok fun _ => some crowdedTree) crowdedSource =
          .ok found ∧
        found.Pairwise (fun a b => a.line < b.line) ∧ ∃ entry ∈ found, entry.line = 2 := by
  have horder : Comment.InOrder crowdedSource.toList
      (crowdedTree.comments javaScript.commentKinds) :=
    ⟨by decide, by decide, by decide⟩
  obtain ⟨found, hfound, hascending, -, hlines⟩ := commentLines_one_per_line
    (fun _ => .ok fun _ => some crowdedTree) javaScript crowdedSource _ crowdedTree rfl rfl horder
  refine ⟨horder, found, hfound, hascending, (hlines 2).mpr ?_⟩
  exact ⟨⟨1, 9, 14⟩, .inside (by decide) (.after (.inside (by decide) (.here (by decide)))),
    by decide, by decide⟩

end Language

end Foldmark

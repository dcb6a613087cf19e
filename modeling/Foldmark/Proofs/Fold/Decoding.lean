import Foldmark.Proofs.Fold.Directive

/-!
# Decoding of fold tokens

The tokens of a document determine where its regions lie and how deep. A line that starts a fold
gives a region's first line and level. The region then goes on as long as the lines keep a fold of
that level open, and it ends before the first line that does not: a line of a lower level, or one
that starts a fold of the same level or a lower one. `Shows` says this of directives alone, and a
well nested outline has exactly the regions that its directives show.
-/
namespace Foldmark

namespace FoldDirective

/-- Whether a fold of level `n` that is open before the line is still open on it. -/
def Keeps (n : Nat) : FoldDirective → Prop
  | startsAt level => n < level
  | continues level => n ≤ level
  | noFold => False

/-! ## Tokens -/

lemma start_sign_not_mem (n : Nat) : '>' ∉ (toString n).toList := by
  rw [Nat.toString_eq_repr, Nat.toList_repr]
  intro h
  exact absurd (Nat.isDigit_of_mem_toDigits (by decide) (by decide) h) (by decide)

lemma token_startsAt_ne (m n : Nat) : ">" ++ toString m ≠ toString n := by
  intro h
  apply start_sign_not_mem n
  rw [← h]
  simp

lemma eq_of_toString_eq {m n : Nat} (h : toString m = toString n) : m = n := by
  have hdigits : Nat.toDigits 10 m = Nat.toDigits 10 n := String.ofList_injective h
  calc m = Nat.ofDigitChars 10 (Nat.toDigits 10 m) 0 := Nat.ofDigitChars_ten_toDigits.symm
    _ = Nat.ofDigitChars 10 (Nat.toDigits 10 n) 0 := by rw [hdigits]
    _ = n := Nat.ofDigitChars_ten_toDigits

/-- Level zero is the level of lines without a fold. -/
def Graded (d : FoldDirective) : Prop :=
  d.level = 0 → d = .noFold

/-- Different directives have different tokens, for no region has level zero. -/
theorem token_injective {d e : FoldDirective} (hd : d.Graded) (he : e.Graded)
    (h : d.token = e.token) : d = e := by
  have hzero : noFold.token = toString 0 := rfl
  cases d with
  | startsAt m =>
    cases e with
    | startsAt n =>
      have hmn := (String.append_right_inj ">").mp h
      rw [eq_of_toString_eq hmn]
    | continues n => exact absurd h (token_startsAt_ne m n)
    | noFold => exact absurd (h.trans hzero) (token_startsAt_ne m 0)
  | continues m =>
    cases e with
    | startsAt n => exact absurd h.symm (token_startsAt_ne n m)
    | continues n => rw [eq_of_toString_eq h]
    | noFold => exact hd (eq_of_toString_eq (h.trans hzero))
  | noFold =>
    cases e with
    | startsAt n => exact absurd (h.symm.trans hzero) (token_startsAt_ne n 0)
    | continues n => exact (he (eq_of_toString_eq (h.symm.trans hzero))).symm
    | noFold => rfl

end FoldDirective

namespace Outline

/-- The directives show a fold of level `n` from one line to another. -/
structure Shows (directive : Nat → FoldDirective) (first last n : Nat) : Prop where
  opens : directive first = .startsAt n
  ordered : first < last
  keeps : ∀ line, first < line → line ≤ last → (directive line).Keeps n
  ends : ¬ (directive (last + 1)).Keeps n

/-- A fold has one end. -/
lemma Shows.last_le {directive : Nat → FoldDirective} {first last last' n : Nat}
    (h : Shows directive first last n) (h' : Shows directive first last' n) : last ≤ last' := by
  by_contra hlt
  have := h'.ordered
  exact h'.ends (h.keeps (last' + 1) (by omega) (by omega))

/-- First line, last line and level of every region, in the order of the outline. -/
def table (o : Outline) : List (Nat × Nat × Nat) :=
  o.regions.map fun r => (r.startLine, r.endLine, r.level)

lemma mem_table (o : Outline) (first last n : Nat) : (first, last, n) ∈ o.table ↔
    ∃ r ∈ o.regions, r.startLine = first ∧ r.endLine = last ∧ r.level = n := by
  simp [table]

/-- A choice of regions by their lines is a choice of rows of the table. -/
lemma map_level_filter (o : Outline) (p : Nat → Nat → Bool) :
    (o.regions.filter fun r => p r.startLine r.endLine).map Region.level =
      (o.table.filter fun row => p row.1 row.2.1).map fun row => row.2.2 := by
  simp [table, List.filter_map, Function.comp_def]

/-- Directives are read off the table. -/
theorem directive_congr {o o' : Outline} (h : o.table = o'.table) : o.directive = o'.directive := by
  funext line
  have hs := fun o : Outline => o.map_level_filter fun first _ => first == line
  have ha := fun o : Outline => o.map_level_filter fun first last => first < line && line ≤ last
  simp only [directive, hs, ha, h]

namespace WellNested

variable {o o' : Outline} {r : Region}

lemma directive_graded (h : o.WellNested) (line : Nat) : (o.directive line).Graded := by
  intro hl
  rw [h.directive_eq line, level_directiveOf] at hl
  rw [h.directive_eq line, directiveOf_eq_noFold_iff]
  cases hi : o.innermostAt line with
  | none => rfl
  | some inner =>
    have := h.level_pos (mem_of_innermostAt hi).1
    rw [hi, Option.elim_some] at hl
    omega

lemma directive_startLine (h : o.WellNested) (hr : r ∈ o.regions) :
    o.directive r.startLine = .startsAt r.level := by
  rw [h.directive_eq, h.innermostAt_startLine hr, directiveOf, if_pos rfl]

/-- Behind its first line a region is kept open by all its lines. -/
lemma directive_keeps (h : o.WellNested) (hr : r ∈ o.regions) (line : Nat)
    (hs : r.startLine < line) (he : line ≤ r.endLine) : (o.directive line).Keeps r.level := by
  have hc : r.covers line = true := (r.covers_iff line).mpr ⟨hs.le, he⟩
  obtain ⟨inner, hi⟩ := exists_innermostAt hr hc
  have hmem := (mem_of_innermostAt hi).1
  rw [h.directive_eq line, hi, directiveOf]
  rcases h.innermostAt_inside hi r hr hc with rfl | hin
  · rw [if_neg hs.ne]
    exact Nat.le_refl _
  · have hlt := h.level_lt_of_inside hmem hr hin
    split_ifs
    · exact hlt
    · exact hlt.le

/-- A region that starts right behind another one is not deeper. -/
lemma level_le_of_adjacent (h : o.WellNested) {q : Region} (hr : r ∈ o.regions)
    (hq : q ∈ o.regions) (ha : q.startLine = r.endLine + 1) : q.level ≤ r.level := by
  have hpr := h.proper r hr
  have hpq := h.proper q hq
  have hopen := h.openBefore_eq hr q.startLine (by omega) (by omega)
  -- whatever encloses `q` reaches back over the end of `r`
  have hle : o.regions.countP (fun p => q.Inside p) ≤ o.regions.countP (fun p => r.Inside p) := by
    apply List.countP_mono_left
    intro p hp hin
    have hin := of_decide_eq_true hin
    apply decide_eq_true
    rcases h.laminar r hr p hp with rfl | hi | hi | hl | hl
    · exact absurd hin.2 (by omega)
    · exact hi
    · exact absurd hin.2 (by have := hi.2; omega)
    · exact absurd hin.1 (by omega)
    · exact absurd hin.2 (by omega)
  have hlq := h.level_eq q hq
  have hlr := h.level_eq r hr
  omega

/-- The line behind a region keeps no fold of its level open. -/
lemma directive_not_keeps (h : o.WellNested) (hr : r ∈ o.regions) :
    ¬ (o.directive (r.endLine + 1)).Keeps r.level := by
  rw [h.directive_eq]
  cases hi : o.innermostAt (r.endLine + 1) with
  | none => exact id
  | some q =>
    obtain ⟨hq, hcov⟩ := mem_of_innermostAt hi
    obtain ⟨hs, he⟩ := (q.covers_iff _).mp hcov
    have hpr := h.proper r hr
    simp only [directiveOf]
    split_ifs with hstart
    · exact (h.level_le_of_adjacent hr hq hstart).not_gt
    · rcases h.laminar r hr q hq with rfl | hin | hin | hl | hl
      · omega
      · exact (h.level_lt_of_inside hr hq hin).not_ge
      · exact absurd hin.2 (by omega)
      · omega
      · omega

theorem shows (h : o.WellNested) (hr : r ∈ o.regions) :
    Shows o.directive r.startLine r.endLine r.level where
  opens := h.directive_startLine hr
  ordered := h.proper r hr
  keeps := h.directive_keeps hr
  ends := h.directive_not_keeps hr

/-- The rows of the table are what the directives show. -/
theorem mem_table_iff_shows (h : o.WellNested) (first last n : Nat) :
    (first, last, n) ∈ o.table ↔ Shows o.directive first last n := by
  rw [mem_table]
  constructor
  · rintro ⟨r, hr, rfl, rfl, rfl⟩
    exact h.shows hr
  · intro hshow
    have hopen := hshow.opens
    have hstart : (o.directive first).isStart = true := by rw [hopen]; rfl
    rw [h.directive_eq, isStart_directiveOf] at hstart
    obtain ⟨r, hi, rfl⟩ := hstart
    have hr := (mem_of_innermostAt hi).1
    have hr' := h.shows hr
    obtain rfl : r.level = n := FoldDirective.startsAt.inj (hr'.opens.symm.trans hopen)
    exact ⟨r, hr, rfl, Nat.le_antisymm (hr'.last_le hshow) (hshow.last_le hr'), rfl⟩

lemma table_ordered (h : o.WellNested) : o.table.Pairwise fun a b => a.1 < b.1 :=
  List.pairwise_map.mpr h.ordered

theorem table_eq_of_directive_eq (h : o.WellNested) (h' : o'.WellNested)
    (hd : o.directive = o'.directive) : o.table = o'.table := by
  have hnodup : ∀ {rows : List (Nat × Nat × Nat)}, (rows.Pairwise fun a b => a.1 < b.1) →
      rows.Nodup := by
    intro rows hrows
    apply hrows.imp
    intro a b hab heq
    exact Nat.ne_of_lt hab (congrArg Prod.fst heq)
  apply List.Perm.eq_of_pairwise ?_ h.table_ordered h'.table_ordered
  · -- the same rows, and both tables are in the order of their first lines
    apply (List.perm_ext_iff_of_nodup (hnodup h.table_ordered) (hnodup h'.table_ordered)).mpr
    rintro ⟨first, last, n⟩
    rw [h.mem_table_iff_shows, h'.mem_table_iff_shows, hd]
  · intro a b _ _ hab hba
    omega

/-- Outside the lines of its regions an outline folds nothing. -/
lemma directive_eq_noFold (h : o.WellNested) (line : Nat)
    (hl : ∀ r ∈ o.regions, line < r.startLine ∨ r.endLine < line) :
    o.directive line = .noFold := by
  rw [h.directive_eq, directiveOf_eq_noFold_iff, innermostAt_eq_none_iff]
  intro r hr
  rw [Bool.eq_false_iff, ne_eq, r.covers_iff]
  have := hl r hr
  omega

theorem directive_eq_of_foldTokens_eq (h : o.WellNested) (h' : o'.WellNested) (lineCount : Nat)
    (hb : ∀ r ∈ o.regions, 1 ≤ r.startLine ∧ r.endLine ≤ lineCount)
    (hb' : ∀ r ∈ o'.regions, 1 ≤ r.startLine ∧ r.endLine ≤ lineCount)
    (ht : o.foldTokens lineCount = o'.foldTokens lineCount) : o.directive = o'.directive := by
  funext line
  by_cases hin : 1 ≤ line ∧ line ≤ lineCount
  · simp only [foldTokens, directives, List.map_map, List.map_inj_left] at ht
    have hl := ht (line - 1) (List.mem_range.mpr (by omega))
    simp only [Function.comp_apply, Nat.sub_add_cancel hin.1] at hl
    exact FoldDirective.token_injective (h.directive_graded line) (h'.directive_graded line) hl
  · rw [h.directive_eq_noFold line fun r hr => ?_, h'.directive_eq_noFold line fun r hr => ?_]
    · have := hb' r hr
      omega
    · have := hb r hr
      omega

end WellNested

lemma one_le_startLine (settings : Settings) (entries : List CommentLine)
    (h : ∀ entry ∈ entries, 1 ≤ entry.line) :
    ∀ r ∈ (ofCommentLines settings entries).regions, 1 ≤ r.startLine := by
  intro r hr
  have ha := (Recognizer.ofSettings settings).collect_ascending entries
  obtain ⟨start, finish, hm, level, rfl⟩ := exists_matches_of_mem_regions _ ha r hr
  obtain ⟨entry, he, _, hl⟩ := Recognizer.exists_entry_of_mem_collect _ entries start hm.start_mem
  rw [Region.ofPair_startLine, hl]
  exact h entry he

/-- Two documents have the same fold tokens exactly if their regions have the same lines and
levels. -/
theorem foldTokens_eq_iff_table_eq (settings settings' : Settings)
    (entries entries' : List CommentLine) (lineCount : Nat)
    (hpos : ∀ entry ∈ entries, 1 ≤ entry.line) (hpos' : ∀ entry ∈ entries', 1 ≤ entry.line)
    (hend : ∀ r ∈ (ofCommentLines settings entries).regions, r.endLine ≤ lineCount)
    (hend' : ∀ r ∈ (ofCommentLines settings' entries').regions, r.endLine ≤ lineCount) :
    (ofCommentLines settings entries).foldTokens lineCount =
        (ofCommentLines settings' entries').foldTokens lineCount ↔
      (ofCommentLines settings entries).table = (ofCommentLines settings' entries').table := by
  have hw := ofCommentLines_wellNested settings entries
  have hw' := ofCommentLines_wellNested settings' entries'
  constructor
  · intro ht
    apply hw.table_eq_of_directive_eq hw'
    apply hw.directive_eq_of_foldTokens_eq hw' lineCount ?_ ?_ ht
    · exact fun r hr => ⟨one_le_startLine settings entries hpos r hr, hend r hr⟩
    · exact fun r hr => ⟨one_le_startLine settings' entries' hpos' r hr, hend' r hr⟩
  · intro ht
    simp only [foldTokens, directives, directive_congr ht]

/-- Regions on the same lines under other names, in another order of the comment lines. -/
def renamedEntries : List CommentLine :=
  [⟨9, "// #endregion"⟩, ⟨8, "// endregion"⟩, ⟨6, "// region +"⟩, ⟨4, "// #region x"⟩,
    ⟨2, "// region"⟩]

lemma table_renamedEntries : (ofCommentLines { caseSensitive := true } renamedEntries).table =
    [(4, 9, 2), (6, 8, 3)] := by
  cbv

theorem foldTokens_raised_eq_renamed :
    (∀ entry ∈ raisedEntries, 1 ≤ entry.line) ∧ (∀ entry ∈ renamedEntries, 1 ≤ entry.line) ∧
      (∀ r ∈ (ofCommentLines { caseSensitive := true } raisedEntries).regions, r.endLine ≤ 9) ∧
      (∀ r ∈ (ofCommentLines { caseSensitive := true } renamedEntries).regions, r.endLine ≤ 9) ∧
      (ofCommentLines { caseSensitive := true } raisedEntries).foldTokens 9 =
        (ofCommentLines { caseSensitive := true } renamedEntries).foldTokens 9 := by
  have hp : ∀ entry ∈ raisedEntries, 1 ≤ entry.line := by decide
  have hp' : ∀ entry ∈ renamedEntries, 1 ≤ entry.line := by decide
  have he : ∀ r ∈ (ofCommentLines { caseSensitive := true } raisedEntries).regions,
      r.endLine ≤ 9 := by
    rw [ofCommentLines_raisedEntries]
    decide
  have he' : ∀ r ∈ (ofCommentLines { caseSensitive := true } renamedEntries).regions,
      r.endLine ≤ 9 := by
    intro r hr
    have hrow := (mem_table _ _ _ _).mpr ⟨r, hr, rfl, rfl, rfl⟩
    rw [table_renamedEntries] at hrow
    simp at hrow
    omega
  have ht : (ofCommentLines { caseSensitive := true } raisedEntries).table =
      (ofCommentLines { caseSensitive := true } renamedEntries).table := by
    rw [ofCommentLines_raisedEntries, table_renamedEntries]
    rfl
  exact ⟨hp, hp', he, he', (foldTokens_eq_iff_table_eq _ _ _ _ 9 hp hp' he he').mpr ht⟩

end Outline

end Foldmark

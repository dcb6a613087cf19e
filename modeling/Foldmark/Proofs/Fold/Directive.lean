import Foldmark.Fold
import Foldmark.Proofs.Outline.Depth

/-!
# Directives and depth

A line's directive is looked up by two passes over all regions: those that start on the line, then
those that began before it. Each pass takes the highest level it meets. In a well nested outline
both find the innermost region around the line (`WellNested.directive_eq`), and the level of the
directive is the depth of the line.
-/
namespace Foldmark

namespace Outline

/-- The directive of a line whose innermost region is known. -/
def directiveOf (line : Nat) : Option Region → FoldDirective
  | none => .noFold
  | some r => if r.startLine = line then .startsAt r.level else .continues r.level

@[simp] theorem level_directiveOf (line : Nat) (inner : Option Region) :
    (directiveOf line inner).level = inner.elim 0 Region.level := by
  cases inner with
  | none => rfl
  | some r =>
    simp only [directiveOf]
    split_ifs <;> rfl

@[simp] theorem directiveOf_eq_noFold_iff (line : Nat) (inner : Option Region) :
    directiveOf line inner = .noFold ↔ inner = none := by
  cases inner with
  | none => simp [directiveOf]
  | some r =>
    simp only [directiveOf]
    split_ifs <;> simp

@[simp] theorem isStart_directiveOf (line : Nat) (inner : Option Region) :
    (directiveOf line inner).isStart = true ↔ ∃ r, inner = some r ∧ r.startLine = line := by
  cases inner with
  | none => simp [directiveOf, FoldDirective.isStart]
  | some r =>
    simp only [directiveOf]
    split_ifs with h <;> simp [FoldDirective.isStart, h]

/-! ## The two passes -/

lemma max?_map_level {rs : List Region} {r : Region} (hr : r ∈ rs)
    (hmax : ∀ q ∈ rs, q.level ≤ r.level) : (rs.map Region.level).max? = some r.level := by
  rw [List.max?_eq_some_iff]
  refine ⟨List.mem_map_of_mem hr, fun level hl => ?_⟩
  obtain ⟨q, hq, rfl⟩ := List.mem_map.mp hl
  exact hmax q hq

/-- What the first pass decides, whatever the second finds. -/
lemma directive_of_starting (o : Outline) (line level : Nat)
    (h : ((o.regions.filter fun r => r.startLine == line).map Region.level).max? = some level) :
    o.directive line = .startsAt level := by
  simp only [directive, h]

/-- The second pass decides where no region starts. -/
lemma directive_of_around (o : Outline) (line : Nat)
    (h : ∀ r ∈ o.regions, r.startLine ≠ line) :
    o.directive line = (((o.regions.filter (·.covers line)).map Region.level).max?).elim
      .noFold .continues := by
  have hs : (o.regions.filter fun r => r.startLine == line) = [] := by
    rw [List.filter_eq_nil_iff]
    intro r hr
    simpa using h r hr
  have ha : (o.regions.filter fun r => r.startLine < line && line ≤ r.endLine) =
      o.regions.filter (·.covers line) := by
    apply List.filter_congr
    intro r hr
    have hne := h r hr
    rw [Bool.eq_iff_iff, r.covers_iff]
    simp only [Bool.and_eq_true, decide_eq_true_eq]
    omega
  simp only [directive, hs, ha, List.map_nil, List.max?_nil]
  cases ((o.regions.filter (·.covers line)).map Region.level).max? <;> rfl

namespace WellNested

variable {o : Outline} {line : Nat}

/-- A region that starts on a line is the innermost region around it. -/
lemma innermostAt_startLine (h : o.WellNested) {r : Region} (hr : r ∈ o.regions) :
    o.innermostAt r.startLine = some r := by
  have hself : r.covers r.startLine = true := (h.covers_startLine_iff hr hr).mpr (.inl rfl)
  obtain ⟨inner, hi⟩ := exists_innermostAt hr hself
  have hcov := (inner.covers_iff _).mp (mem_of_innermostAt hi).2
  rcases h.innermostAt_inside hi r hr hself with rfl | hin
  · exact hi
  · exact absurd hin.1 hcov.1.not_gt

/-- The directive of a line is read off the innermost region around it. -/
theorem directive_eq (h : o.WellNested) (line : Nat) :
    o.directive line = directiveOf line (o.innermostAt line) := by
  by_cases hs : ∃ r ∈ o.regions, r.startLine = line
  · -- the first pass meets one region only, so its highest level is that of the region
    obtain ⟨r, hr, rfl⟩ := hs
    rw [h.innermostAt_startLine hr, directiveOf, if_pos rfl]
    apply directive_of_starting
    apply max?_map_level (List.mem_filter.mpr ⟨hr, by simp⟩)
    intro q hq
    obtain ⟨hq, hqs⟩ := List.mem_filter.mp hq
    rw [h.eq_of_startLine_eq hq hr (beq_iff_eq.mp hqs)]
  · -- the second pass meets all regions around the line
    have hne : ∀ r ∈ o.regions, r.startLine ≠ line := fun r hr he => hs ⟨r, hr, he⟩
    rw [directive_of_around o line hne]
    cases hi : o.innermostAt line with
    | none =>
      rw [innermostAt, deepest?_eq_none_iff] at hi
      simp [hi, directiveOf]
    | some inner =>
      have hmem := mem_of_innermostAt hi
      have hmax := max?_map_level (List.mem_filter.mpr hmem) fun q hq =>
        level_le_of_innermostAt hi q (List.mem_filter.mp hq).1 (List.mem_filter.mp hq).2
      rw [hmax, directiveOf, if_neg (hne inner hmem.1), Option.elim_some]

end WellNested

/-! ## The two queries of a line -/

/-- A line outside all regions has no fold. Any other line has the depth that is counted from the
regions around it and the starts before it that are never closed, and it starts a fold where a
region starts. -/
theorem ofCommentLines_directive (settings : Settings) (entries : List CommentLine)
    (line : Nat) :
    ((ofCommentLines settings entries).directive line = .noFold ↔
        ∀ r ∈ (ofCommentLines settings entries).regions, r.covers line = false) ∧
      ((∃ r ∈ (ofCommentLines settings entries).regions, r.covers line = true) →
        ((ofCommentLines settings entries).directive line).level =
          (ofCommentLines settings entries).regions.countP (·.covers line) +
            (ofCommentLines settings entries).faults.countP
              (fun f => f.kind = .unclosedStart ∧ f.line < line)) ∧
      (((ofCommentLines settings entries).directive line).isStart = true ↔
        ∃ r ∈ (ofCommentLines settings entries).regions, r.startLine = line) := by
  have hw := ofCommentLines_wellNested settings entries
  rw [hw.directive_eq line]
  refine ⟨?_, ?_, ?_⟩
  · rw [directiveOf_eq_noFold_iff, innermostAt_eq_none_iff]
  · rintro ⟨r, hr, hc⟩
    obtain ⟨inner, hi⟩ := exists_innermostAt hr hc
    rw [level_directiveOf, hi, Option.elim_some]
    exact hw.level_innermostAt hi
  · rw [isStart_directiveOf]
    constructor
    · rintro ⟨r, hi, hs⟩
      exact ⟨r, (mem_of_innermostAt hi).1, hs⟩
    · rintro ⟨r, hr, rfl⟩
      exact ⟨r, hw.innermostAt_startLine hr, rfl⟩

theorem ofCommentLines_directive_raised :
    (∃ r ∈ (ofCommentLines { caseSensitive := true } raisedEntries).regions, r.covers 7 = true) ∧
      ((ofCommentLines { caseSensitive := true } raisedEntries).directive 7).level =
        (ofCommentLines { caseSensitive := true } raisedEntries).regions.countP (·.covers 7) +
          (ofCommentLines { caseSensitive := true } raisedEntries).faults.countP
            (fun f => f.kind = .unclosedStart ∧ f.line < 7) := by
  have hc : ∃ r ∈ (ofCommentLines { caseSensitive := true } raisedEntries).regions,
      r.covers 7 = true := by
    rw [ofCommentLines_raisedEntries]
    decide
  exact ⟨hc, (ofCommentLines_directive _ raisedEntries 7).2.1 hc⟩

/-- The directive of a line and the innermost region around it say the same, and that region lies
in every region around the line. -/
theorem ofCommentLines_innermostAt (settings : Settings) (entries : List CommentLine)
    (line : Nat) :
    ((ofCommentLines settings entries).directive line).level =
        ((ofCommentLines settings entries).innermostAt line).elim 0 Region.level ∧
      ((ofCommentLines settings entries).directive line = .noFold ↔
        (ofCommentLines settings entries).innermostAt line = none) ∧
      (((ofCommentLines settings entries).directive line).isStart = true ↔
        ∃ r, (ofCommentLines settings entries).innermostAt line = some r ∧
          r.startLine = line) ∧
      ∀ inner, (ofCommentLines settings entries).innermostAt line = some inner →
        ∀ r ∈ (ofCommentLines settings entries).regions, r.covers line → r.contains inner := by
  have hw := ofCommentLines_wellNested settings entries
  rw [hw.directive_eq line]
  refine ⟨by simp, by simp, by simp, ?_⟩
  intro inner hi r hr hc
  rw [Region.contains_iff]
  rcases hw.innermostAt_inside hi r hr hc with rfl | hin
  · exact ⟨le_rfl, le_rfl⟩
  · exact ⟨hin.1.le, hin.2.le⟩

theorem ofCommentLines_innermostAt_raised :
    (ofCommentLines { caseSensitive := true } raisedEntries).innermostAt 8 =
        some ⟨6, 8, 3, some "b", false⟩ ∧
      ⟨4, 9, 2, some "a", false⟩ ∈
        (ofCommentLines { caseSensitive := true } raisedEntries).regions ∧
      Region.contains ⟨4, 9, 2, some "a", false⟩ ⟨6, 8, 3, some "b", false⟩ = true := by
  have hi : (ofCommentLines { caseSensitive := true } raisedEntries).innermostAt 8 =
      some ⟨6, 8, 3, some "b", false⟩ := by
    rw [innermostAt, ofCommentLines_raisedEntries]
    rfl
  have hr : ⟨4, 9, 2, some "a", false⟩ ∈
      (ofCommentLines { caseSensitive := true } raisedEntries).regions := by
    rw [ofCommentLines_raisedEntries]
    exact List.mem_cons_self
  exact ⟨hi, hr, (ofCommentLines_innermostAt _ raisedEntries 8).2.2.2 _ hi _ hr rfl⟩

end Outline

end Foldmark

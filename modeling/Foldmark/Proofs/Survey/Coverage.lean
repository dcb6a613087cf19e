import Foldmark.Proofs.Outline.Depth
import Foldmark.Proofs.Survey.Totals
import Mathlib.Algebra.BigOperators.Group.Finset.Basic
import Mathlib.Algebra.Order.BigOperators.Group.Finset
import Mathlib.Data.Finset.Max
import Mathlib.Order.Interval.Finset.Nat

/-!
# Lines in regions

A tally counts the lines in regions through the regions of level one. They lie apart, so no line
counts twice, and they hold every line in a region that no open start precedes. A start that is
never closed raises the level of all regions behind it, and none of their lines counts. So the
tally gives the lines in regions exactly if every such start stands behind all regions.
-/
namespace Foldmark

namespace Outline

/-- The lines that lie in at least one region, marker lines included. -/
def coveredLines (o : Outline) : Finset Nat :=
  o.regions.toFinset.biUnion fun r => Finset.Icc r.startLine r.endLine

lemma mem_coveredLines (o : Outline) (line : Nat) :
    line ∈ o.coveredLines ↔ ∃ r ∈ o.regions, r.covers line = true := by
  simp [coveredLines, Region.covers_iff]

/-- The regions whose lines a tally counts. -/
def countedRegions (o : Outline) : Finset Region :=
  o.regions.toFinset.filter fun r => r.level = 1

lemma mem_countedRegions (o : Outline) (r : Region) :
    r ∈ o.countedRegions ↔ r ∈ o.regions ∧ r.level = 1 := by
  simp [countedRegions]

namespace WellNested

variable {o : Outline}

/-- Regions of one level do not share a line. -/
lemma disjoint_of_level_eq (h : o.WellNested) {a b : Region} (ha : a ∈ o.regions)
    (hb : b ∈ o.regions) (hne : a ≠ b) (hl : a.level = b.level) :
    Disjoint (Finset.Icc a.startLine a.endLine) (Finset.Icc b.startLine b.endLine) := by
  rw [Finset.disjoint_left]
  intro line hla hlb
  have hca : a.covers line = true := (a.covers_iff line).mpr (Finset.mem_Icc.mp hla)
  have hcb : b.covers line = true := (b.covers_iff line).mpr (Finset.mem_Icc.mp hlb)
  rcases h.inside_or_inside ha hb hca hcb with heq | hi | hi
  · exact hne heq
  · have := h.level_lt_of_inside ha hb hi
    omega
  · have := h.level_lt_of_inside hb ha hi
    omega

/-- Of the regions around a line with no open start before it the outermost has level one. -/
lemma exists_level_eq_one (h : o.WellNested) {line : Nat} (hc : line ∈ o.coveredLines)
    (ho : o.openBefore line = 0) : ∃ r ∈ o.regions, r.level = 1 ∧ r.covers line = true := by
  obtain ⟨q, hq, hcq⟩ := (o.mem_coveredLines line).mp hc
  obtain ⟨r, hr, hmin⟩ := Finset.exists_min_image (o.regions.toFinset.filter (·.covers line))
    Region.level ⟨q, by simp [hq, hcq]⟩
  obtain ⟨hr, hcr⟩ : r ∈ o.regions ∧ r.covers line = true := by simpa using hr
  refine ⟨r, hr, ?_, hcr⟩
  have hbounds := (r.covers_iff line).mp hcr
  have hopen : o.openBefore r.startLine = 0 := by
    have := o.openBefore_mono hbounds.1
    omega
  -- a region around `r` would be around the line as well, with a lower level
  have hnone : o.regions.countP (fun p => r.Inside p) = 0 := by
    rw [List.countP_eq_zero]
    intro p hp hi
    have hi := of_decide_eq_true hi
    have hcp : p.covers line = true :=
      (p.covers_iff line).mpr ⟨hi.1.le.trans hbounds.1, hbounds.2.trans hi.2.le⟩
    have hle := hmin p (by simp [hp, hcp])
    have hlt := h.level_lt_of_inside hr hp hi
    omega
  have hlevel := h.level_eq r hr
  omega

/-- The regions of level one hold the lines in regions that no open start precedes. -/
theorem biUnion_countedRegions (h : o.WellNested) :
    (o.countedRegions.biUnion fun r => Finset.Icc r.startLine r.endLine) =
      o.coveredLines.filter fun line => o.openBefore line = 0 := by
  ext line
  simp only [Finset.mem_biUnion, mem_countedRegions, Finset.mem_filter, Finset.mem_Icc]
  constructor
  · rintro ⟨r, ⟨hr, hl⟩, hs, he⟩
    refine ⟨(o.mem_coveredLines line).mpr ⟨r, hr, (r.covers_iff line).mpr ⟨hs, he⟩⟩, ?_⟩
    have hlevel := h.level_eq r hr
    have hopen := h.openBefore_eq hr line hs (by omega)
    omega
  · rintro ⟨hc, ho⟩
    obtain ⟨r, hr, hl, hcr⟩ := h.exists_level_eq_one hc ho
    exact ⟨r, ⟨hr, hl⟩, (r.covers_iff line).mp hcr⟩

/-- What the regions add to a tally's lines is the number of these lines. -/
theorem sum_regionLines (h : o.WellNested) :
    (o.regions.map fun r => r.tally.regionLines).sum =
      (o.coveredLines.filter fun line => o.openBefore line = 0).card := by
  have hdisjoint : (o.countedRegions : Set Region).PairwiseDisjoint
      fun r => Finset.Icc r.startLine r.endLine := by
    intro a ha b hb hne
    obtain ⟨ha, hla⟩ := (o.mem_countedRegions a).mp ha
    obtain ⟨hb, hlb⟩ := (o.mem_countedRegions b).mp hb
    exact h.disjoint_of_level_eq ha hb hne (hla.trans hlb.symm)
  calc (o.regions.map fun r => r.tally.regionLines).sum
      = ∑ r ∈ o.regions.toFinset, r.tally.regionLines :=
        (List.sum_toFinset _ h.nodup).symm
    _ = ∑ r ∈ o.countedRegions, (r.endLine - r.startLine + 1) := by
        simp only [Region.tally, countedRegions, Finset.sum_filter]
    _ = ∑ r ∈ o.countedRegions, (Finset.Icc r.startLine r.endLine).card := by
        apply Finset.sum_congr rfl
        intro r hr
        have := h.proper r ((o.mem_countedRegions r).mp hr).1
        rw [Nat.card_Icc]
        omega
    _ = (o.countedRegions.biUnion fun r => Finset.Icc r.startLine r.endLine).card :=
        (Finset.card_biUnion hdisjoint).symm
    _ = (o.coveredLines.filter fun line => o.openBefore line = 0).card := by
        rw [h.biUnion_countedRegions]

/-- No line in a region is behind an open start exactly if all open starts are behind all
regions. -/
lemma openBefore_eq_zero_iff (h : o.WellNested) :
    (∀ line ∈ o.coveredLines, o.openBefore line = 0) ↔
      ∀ f ∈ o.faults, f.kind = .unclosedStart → ∀ r ∈ o.regions, r.endLine < f.line := by
  have hiff : ∀ line, o.openBefore line = 0 ↔
      ∀ f ∈ o.faults, f.kind = .unclosedStart → line ≤ f.line := by
    intro line
    simp [openBefore, List.countP_eq_zero]
  constructor
  · intro hopen f hf hk r hr
    have hpr := h.proper r hr
    have hc : r.startLine ∈ o.coveredLines :=
      (o.mem_coveredLines _).mpr ⟨r, hr, (r.covers_iff _).mpr ⟨le_rfl, hpr.le⟩⟩
    have hle := (hiff _).mp (hopen _ hc) f hf hk
    have := h.apart r hr f hf hk
    omega
  · intro hbehind line hc
    obtain ⟨r, hr, hcr⟩ := (o.mem_coveredLines line).mp hc
    rw [hiff]
    intro f hf hk
    exact ((r.covers_iff line).mp hcr).2.trans (hbehind f hf hk r hr).le

end WellNested

end Outline

namespace Tally

lemma regionLines_sum (ts : List Tally) : ts.sum.regionLines = (ts.map regionLines).sum := by
  induction ts with
  | nil => rfl
  | cons t ts ih =>
    rw [List.sum_cons, List.map_cons, List.sum_cons, ← ih]
    rfl

/-- Only regions add to the lines in regions. -/
lemma regionLines_tally (file : SourceFile) :
    file.tally.regionLines = (file.outline.regions.map fun r => r.tally.regionLines).sum := by
  have hlanguage : file.language.tally.regionLines = 0 := by cases file.language <;> rfl
  have hfaults : (file.outline.faults.map fun f : Fault => f.kind.tally).sum.regionLines = 0 := by
    rw [regionLines_sum, List.map_map]
    apply List.sum_eq_zero
    intro n hn
    obtain ⟨f, _, rfl⟩ := List.mem_map.mp hn
    simp only [Function.comp_apply]
    cases f.kind <;> rfl
  simp only [SourceFile.tally, add_def, combine, hlanguage, hfaults, regionLines_sum, List.map_map]
  simp [Function.comp_def]

/-- The lines that a tally counts for a document are its lines in regions that no open start
precedes. These are all its lines in regions exactly if the open starts are behind all regions. -/
theorem regionLines_eq_card_coveredLines_iff (settings : Settings) (entries : List CommentLine)
    (file : SourceFile) (hfile : file.outline = Outline.ofCommentLines settings entries)
    (tally : Tally) (h : Tally.addFile {} file = .ok tally) :
    tally.regionLines =
        (file.outline.coveredLines.filter fun line => file.outline.openBefore line = 0).card ∧
      (tally.regionLines = file.outline.coveredLines.card ↔
        ∀ f ∈ file.outline.faults, f.kind = .unclosedStart →
          ∀ r ∈ file.outline.regions, r.endLine < f.line) := by
  have hw : file.outline.WellNested := by
    rw [hfile]
    exact Outline.ofCommentLines_wellNested settings entries
  have htally := ((addFile_eq_ok_iff file tally fun r hr _ => (hw.proper r hr).le).mp h).2
  have hlines : tally.regionLines =
      (file.outline.coveredLines.filter fun line => file.outline.openBefore line = 0).card := by
    rw [htally, regionLines_tally, hw.sum_regionLines]
  refine ⟨hlines, ?_⟩
  rw [hlines, Finset.card_filter_eq_iff, hw.openBefore_eq_zero_iff]

/-- A file of ten lines with the given outline. -/
def tenLines (outline : Outline) : SourceFile where
  path := .ofString "a.py"
  location := .ofString "/p/a.py"
  language := .python
  outline := outline
  lineCount := 10
  parsed := true

/-- The document of `Outline.raisedEntries` as a file. -/
def raisedFile : SourceFile :=
  tenLines (Outline.ofCommentLines { caseSensitive := true } Outline.raisedEntries)

lemma addFile_raisedFile : Tally.addFile {} raisedFile = .ok
    { totalFiles := 1, filesWithRegions := 1, filesWithErrors := 1, totalRegions := 2,
      maxLevel := 3, unclosedStart := 1, pythonFiles := 1, totalLines := 10 } := by
  rw [raisedFile, Outline.ofCommentLines_raisedEntries]
  rfl

lemma card_coveredLines_raisedFile : raisedFile.outline.coveredLines.card = 6 := by
  rw [raisedFile, Outline.ofCommentLines_raisedEntries]
  decide

/-- Behind an open start six lines lie in regions, and none of them counts. -/
theorem regionLines_raisedFile_ne :
    (∀ entry ∈ Outline.raisedEntries, 1 ≤ entry.line) ∧
      ∃ tally, Tally.addFile {} raisedFile = .ok tally ∧
        tally.regionLines ≠ raisedFile.outline.coveredLines.card := by
  refine ⟨by decide, _, addFile_raisedFile, ?_⟩
  rw [card_coveredLines_raisedFile]
  decide

theorem regionLines_raisedFile :
    ∃ tally, Tally.addFile {} raisedFile = .ok tally ∧ tally.regionLines =
      (raisedFile.outline.coveredLines.filter fun line =>
        raisedFile.outline.openBefore line = 0).card :=
  ⟨_, addFile_raisedFile,
    (regionLines_eq_card_coveredLines_iff _ _ raisedFile rfl _ addFile_raisedFile).1⟩

end Tally

end Foldmark

import Foldmark.Proofs.Survey.Totals
import Mathlib.Data.List.Perm.Basic

/-!
# Exact totals

What a tally of files should say is fixed without adding files one by one: every counter is the size
or the sum of a list, and the deepest level is a maximum (`Tally.totals`). A tally is exactly this
record, or there is none: a run over the files stops early only where the whole cannot be counted.
That is so if a region of level one ends before it starts or a total needs more than 64 bits, and
neither depends on the order of the files.
-/
namespace Foldmark

namespace Tally

/-- The regions of all files. -/
def regionsOf (files : List SourceFile) : List Region :=
  files.flatMap fun file => file.outline.regions

def faultsOf (files : List SourceFile) : List Fault :=
  files.flatMap fun file => file.outline.faults

/-- The highest level of the given regions, zero without regions. -/
def deepestLevel (regions : List Region) : Nat :=
  (regions.map Region.level).max?.getD 0

/-- The lines of the given regions that have level one, all added up. -/
def outermostLines (regions : List Region) : Nat :=
  ((regions.filter fun r => r.level = 1).map fun r => r.endLine - r.startLine + 1).sum

/-- What there is to count in the files, without a bound. -/
def totals (files : List SourceFile) : Tally where
  totalFiles := files.length
  filesWithRegions := files.countP fun file => !file.outline.regions.isEmpty
  filesWithErrors := files.countP fun file => !file.outline.faults.isEmpty
  totalRegions := (regionsOf files).length
  foldedRegions := (regionsOf files).countP Region.fold
  maxLevel := deepestLevel (regionsOf files)
  unmatchedEnd := (faultsOf files).countP fun f => f.kind = .unmatchedEnd
  mismatchedName := (faultsOf files).countP fun f => f.kind = .mismatchedName
  unclosedStart := (faultsOf files).countP fun f => f.kind = .unclosedStart
  pythonFiles := files.countP fun file => file.language = .python
  javaScriptFiles := files.countP fun file => file.language = .javaScript
  typeScriptFiles := files.countP fun file => file.language = .typeScript
  totalLines := (files.map SourceFile.lineCount).sum
  regionLines := outermostLines (regionsOf files)

/-! ## What the files add makes up the totals -/

lemma maxLevel_eq_deepestLevel (o : Outline) : o.maxLevel = deepestLevel o.regions := by
  rw [Outline.maxLevel, deepestLevel, ← List.foldl_map (f := Region.level) (g := max)]
  cases o.regions.map Region.level with
  | nil => rfl
  | cons level levels => rw [List.max?_cons', Option.getD_some, List.foldl_cons, Nat.zero_max]

lemma deepestLevel_cons (r : Region) (rs : List Region) :
    deepestLevel (r :: rs) = max r.level (deepestLevel rs) := by
  simp only [deepestLevel, List.map_cons, List.max?_cons]
  cases (rs.map Region.level).max? with
  | none => simp
  | some level => simp

lemma deepestLevel_append (rs rs' : List Region) :
    deepestLevel (rs ++ rs') = max (deepestLevel rs) (deepestLevel rs') := by
  induction rs with
  | nil => exact (Nat.zero_max _).symm
  | cons r rs ih => rw [List.cons_append, deepestLevel_cons, deepestLevel_cons, ih, Nat.max_assoc]

lemma outermostLines_append (rs rs' : List Region) :
    outermostLines (rs ++ rs') = outermostLines rs + outermostLines rs' := by
  simp [outermostLines]

lemma sum_region_tally (rs : List Region) :
    (rs.map Region.tally).sum =
      { totalRegions := rs.length, foldedRegions := rs.countP Region.fold,
        regionLines := outermostLines rs } := by
  induction rs with
  | nil => rfl
  | cons r rs ih =>
    rw [List.map_cons, List.sum_cons, ih]
    by_cases hl : r.level = 1 <;> cases hf : r.fold <;>
      simp [Region.tally, outermostLines, add_def, combine, hl, hf, Nat.add_comm]

lemma sum_fault_tally (fs : List Fault) :
    (fs.map fun f => f.kind.tally).sum =
      { unmatchedEnd := fs.countP fun f => f.kind = .unmatchedEnd
        mismatchedName := fs.countP fun f => f.kind = .mismatchedName
        unclosedStart := fs.countP fun f => f.kind = .unclosedStart } := by
  induction fs with
  | nil => rfl
  | cons f fs ih =>
    rw [List.map_cons, List.sum_cons, ih]
    cases hk : f.kind <;> simp [FaultKind.tally, add_def, combine, hk, Nat.add_comm]

lemma totals_cons (file : SourceFile) (files : List SourceFile) :
    totals (file :: files) = file.tally + totals files := by
  rw [SourceFile.tally, sum_region_tally, sum_fault_tally, maxLevel_eq_deepestLevel]
  simp only [totals, regionsOf, faultsOf, List.flatMap_cons, List.length_append,
    List.countP_append, deepestLevel_append, outermostLines_append, List.length_cons,
    List.countP_cons, List.map_cons, List.sum_cons, add_def, combine]
  cases file.language <;> simp [Language.tally, Nat.add_comm]

lemma sum_tally (files : List SourceFile) : (files.map SourceFile.tally).sum = totals files := by
  induction files with
  | nil => rfl
  | cons file files ih => rw [List.map_cons, List.sum_cons, ih, totals_cons]

/-! ## Where a run over files stops -/

/-- In a run that ends well every step does. -/
lemma exists_ok_of_foldlM {α : Type} {step : Tally → α → Except Overflow Tally} {xs : List α}
    {t t' : Tally} (h : xs.foldlM step t = .ok t') {x : α} (hx : x ∈ xs) :
    ∃ u u', step u x = .ok u' := by
  induction xs generalizing t with
  | nil => cases hx
  | cons y ys ih =>
    rw [List.foldlM_cons, Count.bind_eq_ok_iff] at h
    obtain ⟨u, hy, hys⟩ := h
    rcases List.mem_cons.mp hx with rfl | hx
    · exact ⟨t, u, hy⟩
    · exact ih hys hx

lemma exists_lineCount_of_addRegion {t t' : Tally} {r : Region} (h : addRegion t r = .ok t')
    (hl : r.level = 1) : ∃ lines, r.lineCount = .ok lines := by
  by_contra hnone
  have hfails : ∀ lines, r.lineCount ≠ .ok lines := not_exists.mp hnone
  simp only [addRegion, hl, if_true] at h
  split_ifs at h <;> simp [Count.bind_eq_ok_iff, hfails] at h

lemma exists_addRegion_of_addFile {t t' : Tally} {file : SourceFile}
    (h : addFile t file = .ok t') {r : Region} (hr : r ∈ file.outline.regions) :
    ∃ u u', addRegion u r = .ok u' := by
  by_contra hnone
  have hfails : ∀ u u', file.outline.regions.foldlM addRegion u ≠ .ok u' :=
    fun u u' hregions => hnone (exists_ok_of_foldlM hregions hr)
  -- whichever counters the file adds to before, its regions are added after them
  simp only [addFile] at h
  split_ifs at h <;> simp [Count.bind_eq_ok_iff, hfails] at h

/-- Every region of level one in the files has a number of lines. -/
def Countable (files : List SourceFile) : Prop :=
  ∀ r ∈ regionsOf files, r.level = 1 → ∃ lines, r.lineCount = .ok lines

lemma countable_of_ofFiles {files : List SourceFile} {tally : Tally}
    (h : ofFiles files = .ok tally) : Countable files := by
  intro r hr hl
  obtain ⟨file, hfile, hr⟩ := List.mem_flatMap.mp hr
  obtain ⟨t, t', hadd⟩ := exists_ok_of_foldlM h hfile
  obtain ⟨u, u', hregion⟩ := exists_addRegion_of_addFile hadd hr
  exact exists_lineCount_of_addRegion hregion hl

/-- A tally of files is the record of their totals, and there is one exactly if all of it can be
counted. -/
theorem ofFiles_eq_ok_iff (files : List SourceFile) (tally : Tally) :
    ofFiles files = .ok tally ↔
      (Countable files ∧ (totals files).Fits) ∧ tally = totals files := by
  -- files that can be added at all add their amounts, in whatever order the counters come
  have hadds (hc : Countable files) :
      ofFiles files = .ok tally ↔ (totals files).Fits ∧ tally = totals files := by
    have hproper : ∀ file ∈ files, ∀ r ∈ file.outline.regions, r.level = 1 →
        r.startLine ≤ r.endLine := by
      intro file hfile r hr hl
      obtain ⟨lines, hlines⟩ := hc r (List.mem_flatMap.mpr ⟨file, hfile, hr⟩) hl
      exact (Region.lineCount_eq_ok_iff.mp hlines).2.1
    have h := Adds.foldlM files fun file hfile => adds_file file (hproper file hfile)
    have h := h {} tally (by decide)
    rwa [sum_tally, ← zero_def, zero_add] at h
  constructor
  · intro h
    have hc := countable_of_ofFiles h
    obtain ⟨hfits, htally⟩ := (hadds hc).mp h
    exact ⟨⟨hc, hfits⟩, htally⟩
  · rintro ⟨⟨hc, hfits⟩, htally⟩
    exact (hadds hc).mpr ⟨hfits, htally⟩

lemma totals_perm {files files' : List SourceFile} (h : files.Perm files') :
    totals files = totals files' := by
  rw [← sum_tally, ← sum_tally]
  exact (h.map SourceFile.tally).sum_eq

lemma countable_perm {files files' : List SourceFile} (h : files.Perm files') :
    Countable files ↔ Countable files' := by
  have hregions : (regionsOf files).Perm (regionsOf files') := h.flatMap_right _
  simp only [Countable, hregions.mem_iff]

/-- The files cannot be counted: a region of level one has no number of lines, or a total does not
fit a counter. -/
def Overflows (files : List SourceFile) : Prop :=
  (∃ r ∈ regionsOf files, r.level = 1 ∧ ∃ overflow, r.lineCount = .error overflow) ∨
    ∃ total ∈ (totals files).sums, 2 ^ 64 - 1 < total

lemma not_overflows_iff (files : List SourceFile) :
    ¬ Overflows files ↔ Countable files ∧ (totals files).Fits := by
  have hlines : ∀ r : Region, (¬ ∃ overflow, r.lineCount = .error overflow) ↔
      ∃ lines, r.lineCount = .ok lines := by
    intro r
    cases r.lineCount <;> simp
  have hlimit : Count.limit = 2 ^ 64 := rfl
  simp only [Overflows, Countable, Fits, not_or, not_exists, not_and, ← hlines, hlimit]
  refine and_congr Iff.rfl (forall₂_congr fun total _ => ?_)
  omega

/-- Counting files fails exactly if a region of level one has no number of lines or a total needs
more than 64 bits. Otherwise it yields the totals. So the order of the files does not matter, neither
to whether it fails nor to what it yields. -/
theorem ofFiles_exact (files : List SourceFile) :
    ((∃ overflow, ofFiles files = .error overflow) ↔ Overflows files) ∧
      (¬ Overflows files → ofFiles files = .ok (totals files)) ∧
      ∀ reordered : List SourceFile, reordered.Perm files →
        (ofFiles reordered).toOption = (ofFiles files).toOption := by
  have hok : ¬ Overflows files → ofFiles files = .ok (totals files) := by
    intro h
    exact (ofFiles_eq_ok_iff files _).mpr ⟨(not_overflows_iff files).mp h, rfl⟩
  refine ⟨⟨?_, ?_⟩, hok, ?_⟩
  · rintro ⟨overflow, herror⟩
    by_contra h
    rw [hok h] at herror
    cases herror
  · intro h
    cases htally : ofFiles files with
    | error overflow => exact ⟨overflow, rfl⟩
    | ok tally =>
      have hcount := ((ofFiles_eq_ok_iff files tally).mp htally).1
      exact absurd h ((not_overflows_iff files).mpr hcount)
  · intro reordered hperm
    have hiff : ∀ tally, ofFiles reordered = .ok tally ↔ ofFiles files = .ok tally := by
      intro tally
      rw [ofFiles_eq_ok_iff, ofFiles_eq_ok_iff, countable_perm hperm, totals_perm hperm]
    cases hfiles : ofFiles files with
    | ok tally => rw [(hiff tally).mpr hfiles]
    | error overflow =>
      cases hreordered : ofFiles reordered with
      | error other => rfl
      | ok tally =>
        rw [(hiff tally).mp hreordered] at hfiles
        cases hfiles

/-- A file that is one region. -/
def oneRegion (lines : Nat) : SourceFile where
  path := .ofString "a.py"
  location := .ofString "/p/a.py"
  language := .python
  outline := ⟨[⟨1, lines, 1, none, false⟩], []⟩
  lineCount := lines
  parsed := true

/-- Two files with as many lines as a counter can hold. -/
def fullPair : List SourceFile := [oneRegion (2 ^ 64 - 3), oneRegion 2]

lemma not_overflows_fullPair : ¬ Overflows fullPair := by
  refine (not_overflows_iff fullPair).mpr ⟨?_, by decide⟩
  intro r hr _
  have hr : r = ⟨1, 2 ^ 64 - 3, 1, none, false⟩ ∨ r = ⟨1, 2, 1, none, false⟩ := by
    simpa [regionsOf, fullPair, oneRegion] using hr
  rcases hr with rfl | rfl
  · exact ⟨_, rfl⟩
  · exact ⟨_, rfl⟩

/-- Both orders of the two files give the same full counter, and one more line is too many. -/
theorem ofFiles_exact_fullPair :
    ofFiles fullPair = .ok (totals fullPair) ∧ (totals fullPair).regionLines = 2 ^ 64 - 1 ∧
      (ofFiles fullPair.reverse).toOption = (ofFiles fullPair).toOption ∧
      ∃ overflow, ofFiles (oneRegion 1 :: fullPair) = .error overflow := by
  refine ⟨(ofFiles_exact fullPair).2.1 not_overflows_fullPair, rfl,
    (ofFiles_exact fullPair).2.2 _ (List.reverse_perm _), (ofFiles_exact _).1.mpr (.inr ?_)⟩
  exact ⟨2 ^ 64, by decide, by decide⟩

end Tally

end Foldmark

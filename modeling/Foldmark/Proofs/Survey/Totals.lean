import Foldmark.Survey.Tally
import Mathlib.Algebra.BigOperators.Group.List.Basic
import Mathlib.Tactic.Abel

/-!
# Tallies as sums

A file goes into a tally by many small additions, and each of them may overflow its counter. What a
file adds is fixed beforehand (`SourceFile.tally`). A step `Adds` an amount if it yields the sum and
fails exactly where a counter of the sum does not fit. Such steps compose, since a sum that fits
has no part that does not, and so the addition of a whole file is one of them.
-/
namespace Foldmark

namespace Tally

/-- Counters are added. Of the two deepest levels the deeper one counts. -/
def combine (a b : Tally) : Tally where
  totalFiles := a.totalFiles + b.totalFiles
  filesWithRegions := a.filesWithRegions + b.filesWithRegions
  filesWithErrors := a.filesWithErrors + b.filesWithErrors
  totalRegions := a.totalRegions + b.totalRegions
  foldedRegions := a.foldedRegions + b.foldedRegions
  maxLevel := max a.maxLevel b.maxLevel
  unmatchedEnd := a.unmatchedEnd + b.unmatchedEnd
  mismatchedName := a.mismatchedName + b.mismatchedName
  unclosedStart := a.unclosedStart + b.unclosedStart
  pythonFiles := a.pythonFiles + b.pythonFiles
  javaScriptFiles := a.javaScriptFiles + b.javaScriptFiles
  typeScriptFiles := a.typeScriptFiles + b.typeScriptFiles
  totalLines := a.totalLines + b.totalLines
  regionLines := a.regionLines + b.regionLines

instance : Zero Tally := ⟨{}⟩

instance : Add Tally := ⟨combine⟩

lemma zero_def : (0 : Tally) = {} := rfl

lemma add_def (a b : Tally) : a + b = a.combine b := rfl

instance : AddCommMonoid Tally where
  add_assoc a b c := by simp only [add_def, combine, Nat.add_assoc, Nat.max_assoc]
  zero_add a := by simp only [add_def, zero_def, combine, Nat.zero_add, Nat.zero_max]
  add_zero a := by simp only [add_def, zero_def, combine, Nat.add_zero, Nat.max_zero]
  add_comm a b := by
    simp only [add_def, combine]
    congr 1 <;> first | exact Nat.add_comm _ _ | exact Nat.max_comm _ _
  nsmul := nsmulRec

/-- Everything that is counted up. The deepest level is no sum and cannot overflow. -/
def sums (t : Tally) : List Nat :=
  [t.totalFiles, t.filesWithRegions, t.filesWithErrors, t.totalRegions, t.foldedRegions,
    t.unmatchedEnd, t.mismatchedName, t.unclosedStart, t.pythonFiles, t.javaScriptFiles,
    t.typeScriptFiles, t.totalLines, t.regionLines]

/-- No counter overflows. -/
def Fits (t : Tally) : Prop :=
  ∀ count ∈ t.sums, count < Count.limit

instance (t : Tally) : Decidable t.Fits :=
  inferInstanceAs (Decidable (∀ count ∈ t.sums, count < Count.limit))

lemma Fits.of_add {a b : Tally} (h : (a + b).Fits) : a.Fits := by
  simp only [Fits, sums, add_def, combine, List.mem_cons, List.not_mem_nil, or_false,
    forall_eq_or_imp, forall_eq] at h ⊢
  omega

/-- The step adds the amount, and fails exactly where a counter overflows. -/
def Adds (step : Tally → Except Overflow Tally) (amount : Tally) : Prop :=
  ∀ t t', t.Fits → (step t = .ok t' ↔ (t + amount).Fits ∧ t' = t + amount)

lemma adds_pure : Adds pure 0 := by
  intro t t' ht
  simp only [pure, Except.pure, Except.ok.injEq, add_zero, ht, true_and, eq_comm]

lemma Adds.bind {f g : Tally → Except Overflow Tally} {a b : Tally} (hf : Adds f a)
    (hg : Adds g b) : Adds (fun t => f t >>= g) (a + b) := by
  intro t t' ht
  rw [Count.bind_eq_ok_iff, ← add_assoc]
  constructor
  · rintro ⟨u, hu, ht'⟩
    obtain ⟨hfits, rfl⟩ := (hf t u ht).mp hu
    exact (hg _ t' hfits).mp ht'
  · rintro ⟨hfits, rfl⟩
    -- what the first step yields is a part of the whole sum
    have hfits' := hfits.of_add
    exact ⟨t + a, (hf t _ ht).mpr ⟨hfits', rfl⟩, (hg _ _ hfits').mpr ⟨hfits, rfl⟩⟩

lemma Adds.congr {f g : Tally → Except Overflow Tally} {a b : Tally} (hf : Adds f a)
    (hstep : ∀ t, g t = f t) (hamount : b = a) : Adds g b := by
  intro t t' ht
  rw [hstep, hamount]
  exact hf t t' ht

/-- A row of steps adds the sum of what they add. -/
theorem Adds.foldlM {α : Type} {step : Tally → α → Except Overflow Tally} {amount : α → Tally}
    (xs : List α) (h : ∀ x ∈ xs, Adds (step · x) (amount x)) :
    Adds (xs.foldlM step ·) (xs.map amount).sum := by
  induction xs with
  | nil => exact adds_pure
  | cons x xs ih =>
    have hx := h x List.mem_cons_self
    have hxs := ih fun y hy => h y (List.mem_cons_of_mem x hy)
    rw [List.map_cons, List.sum_cons]
    intro t t' ht
    simp only [List.foldlM_cons]
    exact hx.bind hxs t t' ht

/-- Adding to one counter, which the last two arguments tie to its place in the tally. -/
lemma adds_counter (get : Tally → Nat) (put : Tally → Nat → Tally) (n : Nat) (amount : Tally)
    (hput : ∀ t, put t (get t + n) = t + amount := by
      intro t
      simp only [add_def, combine, Nat.add_zero, Nat.max_zero])
    (hfits : ∀ t, t.Fits → ((t + amount).Fits ↔ get t + n < Count.limit) := by
      intro t ht
      simp only [Fits, sums, add_def, combine, List.mem_cons, List.not_mem_nil, or_false,
        forall_eq_or_imp, forall_eq] at ht ⊢
      omega) :
    Adds (fun t => do return put t (← Count.add (get t) n)) amount := by
  intro t t' ht
  simp only [Count.bind_eq_ok_iff, Count.add_eq_ok_iff, pure, Except.pure, Except.ok.injEq]
  rw [hfits t ht, ← hput t]
  constructor
  · rintro ⟨_, ⟨rfl, hlt⟩, rfl⟩
    exact ⟨hlt, rfl⟩
  · rintro ⟨hlt, rfl⟩
    exact ⟨_, ⟨rfl, hlt⟩, rfl⟩

/-- A choice between two steps. -/
lemma Adds.ite {f g : Tally → Except Overflow Tally} {a b : Tally} (c : Prop) [Decidable c]
    (hf : c → Adds f a) (hg : Adds g b) :
    Adds (fun t => if c then f t else g t) (if c then a else b) := by
  split_ifs with hc
  · exact hf hc
  · exact hg

lemma adds_maxLevel (level : Nat) :
    Adds (fun t => pure { t with maxLevel := max t.maxLevel level }) { maxLevel := level } := by
  intro t t' ht
  have hsum : { t with maxLevel := max t.maxLevel level } = t + { maxLevel := level } := by
    simp only [add_def, combine, Nat.add_zero]
  have hfits : (t + { maxLevel := level }).Fits := by rw [← hsum]; exact ht
  rw [← hsum] at hfits ⊢
  simp only [pure, Except.pure, Except.ok.injEq, hfits, true_and, eq_comm]

end Tally

/-! ## What is added -/

/-- What a file adds to the counters of languages. -/
def Language.tally : Language → Tally
  | .python => { pythonFiles := 1 }
  | .javaScript => { javaScriptFiles := 1 }
  | .typeScript => { typeScriptFiles := 1 }

def FaultKind.tally : FaultKind → Tally
  | .unmatchedEnd => { unmatchedEnd := 1 }
  | .mismatchedName => { mismatchedName := 1 }
  | .unclosedStart => { unclosedStart := 1 }

/-- What a region adds. Only a region of level one adds lines. -/
def Region.tally (r : Region) : Tally where
  totalRegions := 1
  foldedRegions := if r.fold then 1 else 0
  regionLines := if r.level = 1 then r.endLine - r.startLine + 1 else 0

/-- What a file adds, all counters at once. -/
def SourceFile.tally (file : SourceFile) : Tally :=
  { totalFiles := 1
    totalLines := file.lineCount
    filesWithRegions := if file.outline.regions.isEmpty then 0 else 1
    filesWithErrors := if file.outline.faults.isEmpty then 0 else 1
    maxLevel := file.outline.maxLevel } +
  file.language.tally + (file.outline.regions.map Region.tally).sum +
    (file.outline.faults.map fun f => f.kind.tally).sum

namespace Tally

lemma adds_language (language : Language) : Adds (addLanguage · language) language.tally := by
  cases language with
  | python =>
    exact adds_counter pythonFiles (fun t count => { t with pythonFiles := count }) 1
      { pythonFiles := 1 }
  | javaScript =>
    exact adds_counter javaScriptFiles (fun t count => { t with javaScriptFiles := count }) 1
      { javaScriptFiles := 1 }
  | typeScript =>
    exact adds_counter typeScriptFiles (fun t count => { t with typeScriptFiles := count }) 1
      { typeScriptFiles := 1 }

lemma adds_fault (f : Fault) : Adds (addFault · f) f.kind.tally := by
  simp only [addFault]
  cases f.kind with
  | unmatchedEnd =>
    exact adds_counter unmatchedEnd (fun t count => { t with unmatchedEnd := count }) 1
      { unmatchedEnd := 1 }
  | mismatchedName =>
    exact adds_counter mismatchedName (fun t count => { t with mismatchedName := count }) 1
      { mismatchedName := 1 }
  | unclosedStart =>
    exact adds_counter unclosedStart (fun t count => { t with unclosedStart := count }) 1
      { unclosedStart := 1 }

/-- The number of lines is computed with the same bound as the sum that it goes into. -/
lemma adds_lineCount (r : Region) (h : r.startLine ≤ r.endLine) :
    Adds (fun t => do
        let lines ← r.lineCount
        return { t with regionLines := ← Count.add t.regionLines lines })
      { regionLines := r.endLine - r.startLine + 1 } := by
  intro t t' ht
  have hcounter := adds_counter regionLines (fun t count => { t with regionLines := count })
    (r.endLine - r.startLine + 1) { regionLines := r.endLine - r.startLine + 1 }
  rw [Count.bind_eq_ok_iff, ← hcounter t t' ht]
  constructor
  · rintro ⟨lines, hlines, hadd⟩
    obtain ⟨rfl, _⟩ := Region.lineCount_eq_ok_iff.mp hlines
    exact hadd
  · intro hadd
    obtain ⟨_, hsum, _⟩ := Count.bind_eq_ok_iff.mp hadd
    have hlt := (Count.add_eq_ok_iff.mp hsum).2
    exact ⟨_, Region.lineCount_eq_ok_iff.mpr ⟨rfl, h, by omega⟩, hadd⟩

lemma adds_region (r : Region) (h : r.level = 1 → r.startLine ≤ r.endLine) :
    Adds (addRegion · r) r.tally := by
  have htotal := adds_counter totalRegions (fun t count => { t with totalRegions := count }) 1
    { totalRegions := 1 }
  have hfold := Adds.ite (r.fold = true) (fun _ =>
    adds_counter foldedRegions (fun t count => { t with foldedRegions := count }) 1
      { foldedRegions := 1 }) adds_pure
  have hlines := Adds.ite (r.level = 1) (fun hl => adds_lineCount r (h hl)) adds_pure
  refine (htotal.bind (hfold.bind hlines)).congr (fun t => ?_) ?_
  · simp only [addRegion, bind_assoc, pure_bind]
    split_ifs <;> simp only [bind_assoc, pure_bind]
  · simp only [Region.tally]
    split_ifs <;> simp [add_def, combine, zero_def]

/-- The counters of the file itself, one by one. -/
lemma header_eq (lines level : Nat) (c d : Prop) [Decidable c] [Decidable d] :
    ({ totalFiles := 1, totalLines := lines, filesWithRegions := if c then 0 else 1,
        filesWithErrors := if d then 0 else 1, maxLevel := level } : Tally) =
      { totalFiles := 1 } + { totalLines := lines } +
        (if c then 0 else { filesWithRegions := 1 }) +
        (if d then 0 else { filesWithErrors := 1 }) + { maxLevel := level } := by
  split_ifs <;> simp [add_def, combine, zero_def]

lemma adds_file (file : SourceFile)
    (h : ∀ r ∈ file.outline.regions, r.level = 1 → r.startLine ≤ r.endLine) :
    Adds (addFile · file) file.tally := by
  have hfiles := adds_counter totalFiles (fun t count => { t with totalFiles := count }) 1
    { totalFiles := 1 }
  have hlanguage := adds_language file.language
  have htotal := adds_counter totalLines (fun t count => { t with totalLines := count })
    file.lineCount { totalLines := file.lineCount }
  have hwith := Adds.ite (file.outline.regions.isEmpty = true) (fun _ => adds_pure) <|
    adds_counter filesWithRegions (fun t count => { t with filesWithRegions := count }) 1
      { filesWithRegions := 1 }
  have herrors := Adds.ite (file.outline.faults.isEmpty = true) (fun _ => adds_pure) <|
    adds_counter filesWithErrors (fun t count => { t with filesWithErrors := count }) 1
      { filesWithErrors := 1 }
  have hregions := Adds.foldlM file.outline.regions fun r hr => adds_region r (h r hr)
  have hlevel := adds_maxLevel file.outline.maxLevel
  have hfaults := Adds.foldlM file.outline.faults fun f _ => adds_fault f
  -- the steps in the order in which a file goes through them; the amounts may be added in any
  refine (hfiles.bind (hlanguage.bind (htotal.bind (hwith.bind (herrors.bind
    (hregions.bind (hlevel.bind hfaults))))))).congr (fun t => ?_) ?_
  · simp only [addFile, bind_assoc, pure_bind]
    split_ifs <;> simp only [bind_assoc, pure_bind]
  · rw [SourceFile.tally, header_eq]
    abel

/-- A file goes into an empty tally exactly if its own counters fit. Regions that end before they
start would have no number of lines. -/
theorem addFile_eq_ok_iff (file : SourceFile) (tally : Tally)
    (h : ∀ r ∈ file.outline.regions, r.level = 1 → r.startLine ≤ r.endLine) :
    Tally.addFile {} file = .ok tally ↔ file.tally.Fits ∧ tally = file.tally := by
  have hadds := adds_file file h {} tally (by decide)
  rwa [← zero_def, zero_add] at hadds

end Tally

end Foldmark

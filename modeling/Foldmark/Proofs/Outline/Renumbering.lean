import Foldmark.Proofs.Outline.Depth
import Foldmark.Proofs.Outline.Faults

/-!
# Renumbered lines

Nothing but the order of lines decides about an outline. If the lines of the comments are renumbered
and keep their order, the outline is the same up to the new numbers. Sorting, keeping one marker a line
and pairing each look at lines only to compare two of them, and each stage is shown to commute with the
renumbering on the lines that occur.
-/
namespace Foldmark

open Marker

def CommentLine.renumber (f : Nat → Nat) (entry : CommentLine) : CommentLine :=
  { entry with line := f entry.line }

def Marker.renumber (f : Nat → Nat) (m : Marker) : Marker :=
  { m with line := f m.line }

def Region.renumber (f : Nat → Nat) (r : Region) : Region :=
  { r with startLine := f r.startLine, endLine := f r.endLine }

variable {f : Nat → Nat} {lines : Set Nat}

/-! ## Reading -/

namespace Recognizer

variable (r : Recognizer) (f : Nat → Nat)

lemma startAfter?_renumber (line : Nat) (fold : Bool) (rest : List Char) :
    r.startAfter? (f line) fold rest = (r.startAfter? line fold rest).map (Marker.renumber f) := by
  simp only [startAfter?]
  split_ifs <;> rfl

/-- What a comment line says does not depend on where it stands. -/
lemma parseLine_renumber (line : Nat) (text : String) :
    r.parseLine (f line) text = (r.parseLine line text).map (Marker.renumber f) := by
  have hstart : ∀ content fold, r.startMarker? (f line) content fold =
      (r.startMarker? line content fold).map (Marker.renumber f) := by
    intro content fold
    simp only [startMarker?, List.map_findSome?, Function.comp_def, Option.map_bind,
      startAfter?_renumber]
  have hend : ∀ content, r.endMarker? (f line) content =
      (r.endMarker? line content).map (Marker.renumber f) := by
    intro content
    simp only [endMarker?, List.map_findSome?, Function.comp_def, Option.map_bind, apply_ite,
      Option.map_some, Option.map_none, Marker.renumber]
  simp only [parseLine, hstart, hend, Option.map_or]

variable {f}

lemma collect_renumber (hf : StrictMonoOn f lines) (entries : List CommentLine)
    (hl : ∀ entry ∈ entries, entry.line ∈ lines) :
    r.collect (entries.map (CommentLine.renumber f)) =
      (r.collect entries).map (Marker.renumber f) := by
  let found := entries.filterMap fun entry => r.parseLine entry.line entry.text
  have hfound : (entries.map (CommentLine.renumber f)).filterMap
      (fun entry => r.parseLine entry.line entry.text) = found.map (Marker.renumber f) := by
    simp only [List.filterMap_map, found, List.map_filterMap, Function.comp_def,
      CommentLine.renumber, parseLine_renumber]
  have hline : ∀ m ∈ found, m.line ∈ lines := by
    intro m hm
    obtain ⟨entry, he, hp⟩ := List.mem_filterMap.mp hm
    rw [r.line_of_parseLine _ _ m hp]
    exact hl entry he
  simp only [collect, hfound]
  apply dedupBy_mergeSort_map
  intro a ha b hb
  exact hf.le_iff_le (hline a ha) (hline b hb)

end Recognizer

/-! ## Pairing -/

namespace Outline

namespace Pairing

/-- The second pairing is the first one with its lines renumbered, but for the texts of faults. -/
structure Renumbered (f : Nat → Nat) (p q : Pairing) : Prop where
  pending : q.pending = p.pending.map (Marker.renumber f)
  closed : q.closed = p.closed.map (Region.renumber f)
  faults : q.faults.map (fun a => (a.line, a.kind)) = p.faults.map fun a => (f a.line, a.kind)

/-- A name is as wrong on one line as on another. -/
lemma map_ofNames_renumber (start finish : Marker) :
    (Fault.ofNames (start.renumber f) (finish.renumber f)).map (fun a => (a.line, a.kind)) =
      (Fault.ofNames start finish).map fun a => (f a.line, a.kind) := by
  simp only [Fault.ofNames, Marker.renumber]
  split
  · split_ifs <;> rfl
  · rfl

/-- One step compares the line of its marker with that of the innermost open start. -/
lemma Renumbered.step {p q : Pairing} (h : Renumbered f p q) (m : Marker)
    (hm : ∀ a ∈ p.pending, f m.line ≤ f a.line ↔ m.line ≤ a.line) :
    Renumbered f (p.step m) (q.step (m.renumber f)) := by
  cases hk : m.kind with
  | start =>
    rw [step_of_start p m hk, step_of_start q (m.renumber f) hk]
    exact ⟨by simp [h.pending], h.closed, h.faults⟩
  | finish =>
    cases hp : p.pending with
    | nil =>
      have hq : q.pending = [] := by simp [h.pending, hp]
      rw [step_of_nil p m hk hp, step_of_nil q (m.renumber f) hk hq]
      exact ⟨h.pending, h.closed, by simp [h.faults, Fault.noStart, Marker.renumber]⟩
    | cons start rest =>
      have hq : q.pending = start.renumber f :: rest.map (Marker.renumber f) := by
        simp [h.pending, hp]
      have hle : (m.renumber f).line ≤ (start.renumber f).line ↔ m.line ≤ start.line :=
        hm start (by simp [hp])
      rw [step_of_cons p m start rest hk hp, step_of_cons q (m.renumber f) _ _ hk hq]
      simp only [hle]
      split_ifs
      · exact ⟨h.pending, h.closed, by simp [h.faults, Fault.sameLine, Marker.renumber]⟩
      · refine ⟨rfl, ?_, by simp [h.faults, map_ofNames_renumber]⟩
        simp [h.closed, Region.ofPair, Region.renumber, Marker.renumber]

theorem run_renumber (hf : StrictMonoOn f lines) (ms : List Marker)
    (hl : ∀ m ∈ ms, m.line ∈ lines) :
    Renumbered f (run {} ms) (run {} (ms.map (Marker.renumber f))) := by
  induction ms using List.reverseRecOn with
  | nil => exact ⟨rfl, rfl, rfl⟩
  | append_singleton ms m ih =>
    rw [List.map_append, List.map_singleton, run_concat, run_concat]
    refine (ih fun a ha => hl a (by simp [ha])).step m fun a ha => ?_
    exact hf.le_iff_le (hl m (by simp)) (hl a (by simp [mem_pending_run ms a ha]))

end Pairing

/-- The lines of the regions are lines of markers, so their order is kept too. -/
lemma regions_renumber (hf : StrictMonoOn f lines) (ms : List Marker)
    (hl : ∀ m ∈ ms, m.line ∈ lines) :
    (ofMarkers (ms.map (Marker.renumber f))).regions =
      (ofMarkers ms).regions.map (Region.renumber f) := by
  have hlines : ∀ r ∈ (Pairing.run {} ms).closed, r.startLine ∈ lines ∧ r.endLine ∈ lines := by
    intro r hr
    obtain ⟨start, hstart, finish, hfinish, hs, he⟩ :=
      exists_markers_of_mem_regions ms r ((mem_regions ms r).mpr hr)
    exact ⟨hs ▸ hl start hstart, he ▸ hl finish hfinish⟩
  simp only [ofMarkers, (Pairing.run_renumber hf ms hl).closed]
  refine (List.map_mergeSort fun a ha b hb => ?_).symm
  obtain ⟨has, hae⟩ := hlines a ha
  obtain ⟨hbs, hbe⟩ := hlines b hb
  rw [Bool.eq_iff_iff, precedes_iff, precedes_iff]
  simp only [Region.renumber, hf.lt_iff_lt has hbs, hf.injOn.eq_iff has hbs,
    hf.le_iff_le hbe hae]

/-- The renumbered outline has the same regions and faults in the same order, on the new lines. -/
theorem ofCommentLines_renumber (settings : Settings) (entries : List CommentLine) (f : Nat → Nat)
    (hf : StrictMonoOn f {line | line ∈ entries.map CommentLine.line}) :
    (ofCommentLines settings (entries.map (CommentLine.renumber f))).regions =
        (ofCommentLines settings entries).regions.map (Region.renumber f) ∧
      (ofCommentLines settings (entries.map (CommentLine.renumber f))).faults.map
          (fun a => (a.line, a.kind)) =
        (ofCommentLines settings entries).faults.map fun a => (f a.line, a.kind) := by
  let r := Recognizer.ofSettings settings
  have hcollect := r.collect_renumber hf entries fun entry he => List.mem_map_of_mem he
  have hl : ∀ m ∈ r.collect entries, m.line ∈ {line | line ∈ entries.map CommentLine.line} := by
    intro m hm
    obtain ⟨entry, he, -, hline⟩ := r.exists_entry_of_mem_collect entries m hm
    exact hline ▸ List.mem_map_of_mem he
  have hrun := Pairing.run_renumber hf (r.collect entries) hl
  simp only [ofCommentLines, r] at *
  rw [hcollect]
  refine ⟨regions_renumber hf _ hl, ?_⟩
  simp only [ofMarkers, List.map_append, hrun.faults, hrun.pending, List.map_reverse, List.map_map]
  rfl

/-- A renumbering that keeps the order of the lines that occur, and of no other lines. -/
theorem ofCommentLines_renumber_raised :
    StrictMonoOn (fun n => if n < 10 then 3 * n else 0)
        {line | line ∈ raisedEntries.map CommentLine.line} ∧
      (ofCommentLines { caseSensitive := true }
        [⟨6, "# region open"⟩, ⟨12, "# region a"⟩, ⟨18, "# region b"⟩, ⟨24, "# endregion"⟩,
          ⟨27, "# endregion a"⟩]).regions =
        [⟨12, 27, 2, some "a", false⟩, ⟨18, 24, 3, some "b", false⟩] := by
  have hf : StrictMonoOn (fun n => if n < 10 then 3 * n else 0)
      {line | line ∈ raisedEntries.map CommentLine.line} := by
    intro a ha b hb hab
    have hlt : ∀ n ∈ raisedEntries.map CommentLine.line, n < 10 := by decide
    have hla := hlt a ha
    have hlb := hlt b hb
    simp only [hla, hlb, if_true]
    omega
  refine ⟨hf, (ofCommentLines_renumber { caseSensitive := true } raisedEntries _ hf).1.trans ?_⟩
  rw [ofCommentLines_raisedEntries]
  rfl

end Outline

end Foldmark

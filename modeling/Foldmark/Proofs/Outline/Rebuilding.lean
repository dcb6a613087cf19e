import Foldmark.Proofs.Outline.Faults
import Mathlib.Data.List.Permutation

/-!
# Outlines from their regions

The regions of an outline are written as markers again, a start and an end without a name for each. If no
start was left open, pairing these markers gives the same regions and no fault: an end that was refused
and a wrong name leave no trace in the regions. The two rows of markers are compared along the run.
Among the markers read so far there is always a row that leads to the same open starts and the same
regions without a fault, and it consists of the markers of the regions and of the open starts
(`Retraced`).
-/
namespace Foldmark

open Marker

/-- The two markers of a region. The end carries no name. -/
def Region.markers (r : Region) : List Marker :=
  [⟨r.startLine, .start, r.name, r.fold⟩, ⟨r.endLine, .finish, none, false⟩]

lemma Region.markers_ofPair {start : Marker} (h : start.kind = .start) (finish : Marker)
    (level : Nat) :
    (Region.ofPair start finish level).markers = [start, ⟨finish.line, .finish, none, false⟩] := by
  cases start
  simp only at h
  rw [h]
  rfl

/-- An end without a name contradicts no start. -/
lemma Fault.ofNames_of_none (start : Marker) {finish : Marker} (h : finish.name = none) :
    ofNames start finish = [] := by
  simp [ofNames, h]

/-- Sorting brings markers of different lines into their one ascending order. -/
lemma Marker.mergeSort_eq_of_ascending {xs ys : List Marker} (h : Ascending ys)
    (hp : xs.Perm ys) : xs.mergeSort (fun a b => a.line ≤ b.line) = ys := by
  have hsorted : (xs.mergeSort fun a b => a.line ≤ b.line).Pairwise
      fun a b => decide (a.line ≤ b.line) = true :=
    List.pairwise_mergeSort (keyLe_trans Marker.line) (keyLe_total Marker.line) xs
  have hperm := (List.mergeSort_perm xs fun a b => a.line ≤ b.line).trans hp
  refine List.Perm.eq_of_pairwise ?_ hsorted (h.imp fun hab => decide_eq_true hab.le) hperm
  intro a b ha hb hab hba
  refine h.eq_of_line_eq (hperm.mem_iff.mp ha) hb ?_
  exact le_antisymm (of_decide_eq_true hab) (of_decide_eq_true hba)

namespace Outline

/-- The markers of all regions in the order of their lines. -/
def markers (outline : Outline) : List Marker :=
  (outline.regions.flatMap Region.markers).mergeSort fun a b => a.line ≤ b.line

namespace Pairing

/-- A row of markers that leads to the pairing, but to none of its faults. It stands on lines that
were read and holds the markers of the closed regions and the open starts, nothing else. -/
structure Retraced (done : List Marker) (p : Pairing) (kept : List Marker) : Prop where
  run_eq : run {} kept = { p with faults := [] }
  perm : kept.Perm (p.closed.flatMap Region.markers ++ p.pending)
  lines : (kept.map Marker.line).Sublist (done.map Marker.line)

/-- A start goes into the row as it is, an end that closes a region without its name, and an end that is
refused does not go into it. -/
lemma Retraced.step {done kept : List Marker} {p q : Pairing} {m : Marker}
    (h : Retraced done p kept) (hs : p.Step m q) (hkind : ∀ a ∈ p.pending, a.kind = .start) :
    ∃ kept', Retraced (done ++ [m]) q kept' := by
  cases hs with
  | opens hm =>
    refine ⟨kept ++ [m], ?_, ?_, ?_⟩
    · rw [run_concat, h.run_eq, step_of_start _ m hm]
    · refine (h.perm.append_right [m]).trans ?_
      rw [List.append_assoc]
      exact List.perm_append_comm.append_left _
    · rw [List.map_append, List.map_append]
      exact h.lines.append_right [m.line]
  | refuses hm hp fault hf hl =>
    refine ⟨kept, h.run_eq, h.perm, h.lines.trans ?_⟩
    simp
  | closes hm start rest hp hl =>
    let finish : Marker := ⟨m.line, .finish, none, false⟩
    have hnames : Fault.ofNames start finish = [] := Fault.ofNames_of_none start rfl
    refine ⟨kept ++ [finish], ?_, ?_, ?_⟩
    · rw [run_concat, h.run_eq, step_of_cons { p with faults := [] } finish start rest rfl hp,
        if_neg hl.not_ge, hnames]
      rfl
    · refine (h.perm.append_right [finish]).trans ?_
      rw [hp, List.flatMap_append, List.flatMap_singleton,
        Region.markers_ofPair (hkind start (by simp [hp])), List.append_assoc, List.append_assoc]
      exact (List.perm_append_comm.cons start).append_left _
    · rw [List.map_append, List.map_append]
      exact h.lines.append_right [m.line]

theorem run_retraced (ms : List Marker) : ∃ kept, Retraced ms (run {} ms) kept := by
  refine run_induction (fun done p => ∃ kept, Retraced done p kept) ⟨[], rfl, by simp, by simp⟩ ?_ ms
  rintro done m q ⟨kept, h⟩ hs
  exact h.step hs (pending_kind done)

end Pairing

/-- The regions of ascending markers rebuild themselves: if no start is left open, the markers of the
regions alone give the same regions, in the same order and with the same levels, names and fold flags,
and no fault. -/
theorem ofMarkers_markers (ms : List Marker) (h : Ascending ms)
    (hc : ∀ f ∈ (ofMarkers ms).faults, f.kind ≠ .unclosedStart) :
    ofMarkers (ofMarkers ms).markers = { regions := (ofMarkers ms).regions, faults := [] } := by
  obtain ⟨kept, hkept⟩ := Pairing.run_retraced ms
  have hnil := pending_eq_nil_of_faults ms hc
  have hascending : Ascending kept := by
    have hlines : (ms.map Marker.line).Pairwise (· < ·) := List.pairwise_map.mpr h
    exact List.pairwise_map.mp (hlines.sublist hkept.lines)
  have hperm : ((ofMarkers ms).regions.flatMap Region.markers).Perm kept := by
    -- no start waits at the end, so the row holds the markers of the regions only
    have hclosed := hkept.perm
    rw [hnil, List.append_nil] at hclosed
    exact ((regions_perm ms).flatMap_right _).trans hclosed.symm
  have hmarkers : (ofMarkers ms).markers = kept := mergeSort_eq_of_ascending hascending hperm
  rw [hmarkers, ofMarkers, hkept.run_eq, hnil]
  rfl

/-- Two nested regions among two ends without a start, with a wrong name at the end of the outer one. -/
def refusedMarkers : List Marker :=
  [⟨1, .finish, none, false⟩, ⟨2, .start, some "a", true⟩, ⟨3, .start, none, false⟩,
    ⟨5, .finish, some "x", false⟩, ⟨7, .finish, some "b", false⟩, ⟨9, .finish, none, false⟩]

theorem ofMarkers_markers_refused :
    Ascending refusedMarkers ∧
      (∀ f ∈ (ofMarkers refusedMarkers).faults, f.kind ≠ .unclosedStart) ∧
      (ofMarkers refusedMarkers).markers =
        [⟨2, .start, some "a", true⟩, ⟨3, .start, none, false⟩, ⟨5, .finish, none, false⟩,
          ⟨7, .finish, none, false⟩] ∧
      ofMarkers (ofMarkers refusedMarkers).markers =
        ⟨[⟨2, 7, 1, some "a", true⟩, ⟨3, 5, 2, none, false⟩], []⟩ := by
  have ha : Ascending refusedMarkers := by decide
  have hc : ∀ f ∈ (ofMarkers refusedMarkers).faults, f.kind ≠ .unclosedStart := by decide
  have hregions : (ofMarkers refusedMarkers).regions =
      [⟨2, 7, 1, some "a", true⟩, ⟨3, 5, 2, none, false⟩] := by cbv
  refine ⟨ha, hc, by cbv, ?_⟩
  rw [ofMarkers_markers refusedMarkers ha hc, hregions]

end Outline

end Foldmark

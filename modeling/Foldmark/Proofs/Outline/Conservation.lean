import Foldmark.Proofs.Outline.Steps
import Mathlib.Algebra.Order.Group.Multiset
import Mathlib.Tactic.Abel

/-!
# Conservation of markers

Every start marker ends as the start of a region or is reported as never closed, and every end
marker ends as the end of a region or is reported as unmatched. Nothing is asked of the order of
the markers: they may come unsorted and several of them may share a line. The count is kept as
multisets of lines. Between two markers the starts are those of the closed regions and those that
still wait, which is the equation that every step keeps.
-/
namespace Foldmark

/-- The lines of the markers of one kind, each as often as it occurs. -/
def Marker.linesOf (kind : MarkerKind) (markers : List Marker) : Multiset Nat :=
  ↑((markers.filter fun m => m.kind = kind).map Marker.line)

/-- The lines of the faults of one kind, each as often as it occurs. -/
def Fault.linesOf (kind : FaultKind) (faults : List Fault) : Multiset Nat :=
  ↑((faults.filter fun f => f.kind = kind).map Fault.line)

namespace Marker

@[simp] theorem linesOf_nil (kind : MarkerKind) : linesOf kind [] = 0 := rfl

theorem linesOf_cons (kind : MarkerKind) (m : Marker) (ms : List Marker) :
    linesOf kind (m :: ms) = linesOf kind [m] + linesOf kind ms := by
  by_cases h : m.kind = kind <;> simp [linesOf, h]

lemma linesOf_singleton (kind : MarkerKind) (m : Marker) :
    linesOf kind [m] = if m.kind = kind then {m.line} else 0 := by
  by_cases h : m.kind = kind <;> simp [linesOf, h]

end Marker

namespace Fault

@[simp] theorem linesOf_append (kind : FaultKind) (fs gs : List Fault) :
    linesOf kind (fs ++ gs) = linesOf kind fs + linesOf kind gs := by
  simp [linesOf]

lemma linesOf_singleton (kind : FaultKind) (f : Fault) (h : f.kind = kind) :
    linesOf kind [f] = {f.line} := by
  simp [linesOf, h]

lemma linesOf_eq_zero (kind : FaultKind) (fs : List Fault) (h : ∀ f ∈ fs, f.kind ≠ kind) :
    linesOf kind fs = 0 := by
  have he : (fs.filter fun f => f.kind = kind) = [] := by
    rw [List.filter_eq_nil_iff]
    intro f hf
    simpa using h f hf
  simp [linesOf, he]

/-- A wrong name is not an unmatched end. -/
lemma linesOf_ofNames (kind : FaultKind) (start finish : Marker) (h : kind ≠ .mismatchedName) :
    linesOf kind (ofNames start finish) = 0 := by
  apply linesOf_eq_zero
  intro f hf
  rw [kind_of_mem_ofNames start finish f hf]
  exact h.symm

/-- The reports about starts that were never closed stand on the lines of the starts. -/
lemma linesOf_neverClosed (ms : List Marker) :
    linesOf .unclosedStart (ms.map neverClosed) = ↑(ms.map Marker.line) := by
  have hf : (ms.map neverClosed).filter (fun f => f.kind = .unclosedStart) =
      ms.map neverClosed := by
    rw [List.filter_eq_self]
    intro f hf
    simpa using kind_of_mem_neverClosed ms f hf
  rw [linesOf, hf, List.map_map]
  rfl

end Fault

namespace Outline

namespace Pairing

/-- The lines of all starts so far: those of closed regions and those that still wait. -/
def startLines (p : Pairing) : Multiset Nat :=
  ↑(p.closed.map Region.startLine) + ↑(p.pending.map Marker.line)

/-- The lines of all ends so far: those of closed regions and the refused ones. -/
def endLines (p : Pairing) : Multiset Nat :=
  ↑(p.closed.map Region.endLine) + Fault.linesOf .unmatchedEnd p.faults

lemma Step.startLines {p q : Pairing} {m : Marker} (h : p.Step m q) :
    q.startLines = p.startLines + Marker.linesOf .start [m] := by
  cases h with
  | opens hm =>
    simp only [Pairing.startLines, Marker.linesOf_singleton, hm, if_true, List.map_cons,
      ← Multiset.cons_coe, ← Multiset.singleton_add]
    abel
  | refuses hm hp fault hf hl =>
    simp [Pairing.startLines, Marker.linesOf_singleton, hm]
  | closes hm start rest hp hl =>
    have hz : Marker.linesOf .start [m] = 0 := by simp [Marker.linesOf_singleton, hm]
    simp only [Pairing.startLines, hz, hp, List.map_append, List.map_cons, List.map_nil,
      Region.ofPair_startLine, ← Multiset.coe_add, ← Multiset.cons_coe,
      ← Multiset.singleton_add, Multiset.coe_nil, add_zero]
    abel

lemma Step.endLines {p q : Pairing} {m : Marker} (h : p.Step m q) :
    q.endLines = p.endLines + Marker.linesOf .finish [m] := by
  cases h with
  | opens hm => simp [Pairing.endLines, Marker.linesOf_singleton, hm]
  | refuses hm hp fault hf hl =>
    simp only [Pairing.endLines, Marker.linesOf_singleton, hm, if_true, Fault.linesOf_append,
      Fault.linesOf_singleton _ _ hf, hl]
    abel
  | closes hm start rest hp hl =>
    have hn := Fault.linesOf_ofNames .unmatchedEnd start m (by decide)
    simp only [Pairing.endLines, Marker.linesOf_singleton, hm, if_true, Fault.linesOf_append,
      hn, List.map_append, List.map_cons, List.map_nil, Region.ofPair_endLine,
      ← Multiset.coe_add, Multiset.coe_singleton]
    abel

theorem run_startLines (p : Pairing) (ms : List Marker) :
    (p.run ms).startLines = p.startLines + Marker.linesOf .start ms := by
  induction ms generalizing p with
  | nil => simp
  | cons m ms ih =>
    rw [run_cons, ih, (step_spec p m).startLines, Marker.linesOf_cons _ m ms, add_assoc]

theorem run_endLines (p : Pairing) (ms : List Marker) :
    (p.run ms).endLines = p.endLines + Marker.linesOf .finish ms := by
  induction ms generalizing p with
  | nil => simp
  | cons m ms ih =>
    rw [run_cons, ih, (step_spec p m).endLines, Marker.linesOf_cons _ m ms, add_assoc]

/-- While markers are read, no start is given up. -/
theorem run_faults_kind (ms : List Marker) :
    ∀ f ∈ (run {} ms).faults, f.kind ≠ .unclosedStart := by
  refine run_invariant (fun p => ∀ f ∈ p.faults, f.kind ≠ .unclosedStart) ?_ {} ms (by simp)
  intro p m q h hp f hf
  cases h with
  | opens hm => exact hp f hf
  | refuses hm hh fault hk hl =>
    rcases List.mem_append.mp hf with hf | hf
    · exact hp f hf
    · rw [List.mem_singleton.mp hf, hk]
      decide
  | closes hm start rest hh hl =>
    rcases List.mem_append.mp hf with hf | hf
    · exact hp f hf
    · rw [Fault.kind_of_mem_ofNames start m f hf]
      decide

/-- An end on the line of its start, or before it, is refused: so a region has two lines. -/
theorem run_closed_proper (ms : List Marker) :
    ∀ r ∈ (run {} ms).closed, r.startLine < r.endLine ∧ 1 ≤ r.level := by
  refine run_invariant (fun p => ∀ r ∈ p.closed, r.startLine < r.endLine ∧ 1 ≤ r.level) ?_
    {} ms (by simp)
  intro p m q h hp r hr
  cases h with
  | opens hm => exact hp r hr
  | refuses hm hh fault hk hl => exact hp r hr
  | closes hm start rest hh hl =>
    rcases List.mem_append.mp hr with hr | hr
    · exact hp r hr
    · rw [List.mem_singleton.mp hr]
      exact ⟨hl, Nat.le_add_left 1 rest.length⟩

end Pairing

theorem regions_proper (ms : List Marker) :
    ∀ r ∈ (ofMarkers ms).regions, r.startLine < r.endLine ∧ 1 ≤ r.level := by
  intro r hr
  exact Pairing.run_closed_proper ms r ((mem_regions ms r).mp hr)

/-- The reported open starts are those that wait at the end of the run. -/
theorem linesOf_unclosedStart (ms : List Marker) :
    Fault.linesOf .unclosedStart (ofMarkers ms).faults =
      ↑((Pairing.run {} ms).pending.map Marker.line) := by
  have hz := Fault.linesOf_eq_zero .unclosedStart _ (Pairing.run_faults_kind ms)
  have hr := Fault.linesOf_neverClosed (Pairing.run {} ms).pending.reverse
  rw [ofMarkers, Fault.linesOf_append, hz, hr, zero_add, List.map_reverse, Multiset.coe_reverse]

lemma faultCount_unclosedStart (ms : List Marker) :
    (ofMarkers ms).faultCount .unclosedStart = (Pairing.run {} ms).pending.length := by
  have h := congrArg Multiset.card (linesOf_unclosedStart ms)
  simpa [Fault.linesOf, faultCount] using h

/-- Where none is reported, none waits. -/
lemma pending_eq_nil_of_faults (ms : List Marker)
    (h : ∀ f ∈ (ofMarkers ms).faults, f.kind ≠ .unclosedStart) :
    (Pairing.run {} ms).pending = [] := by
  apply List.eq_nil_of_length_eq_zero
  rw [← faultCount_unclosedStart, faultCount, List.length_eq_zero_iff, List.filter_eq_nil_iff]
  intro f hf
  simpa using h f hf

theorem linesOf_unmatchedEnd (ms : List Marker) :
    Fault.linesOf .unmatchedEnd (ofMarkers ms).faults =
      Fault.linesOf .unmatchedEnd (Pairing.run {} ms).faults := by
  have hz : Fault.linesOf .unmatchedEnd
      ((Pairing.run {} ms).pending.reverse.map Fault.neverClosed) = 0 := by
    apply Fault.linesOf_eq_zero
    intro f hf
    rw [Fault.kind_of_mem_neverClosed _ f hf]
    decide
  simp only [ofMarkers, Fault.linesOf_append, hz, add_zero]

/-- No marker is lost and none counts twice, in whatever order the markers come. -/
theorem ofMarkers_conserves (ms : List Marker) :
    Marker.linesOf .start ms =
        ↑((ofMarkers ms).regions.map Region.startLine) +
          Fault.linesOf .unclosedStart (ofMarkers ms).faults ∧
      Marker.linesOf .finish ms =
        ↑((ofMarkers ms).regions.map Region.endLine) +
          Fault.linesOf .unmatchedEnd (ofMarkers ms).faults ∧
      ∀ r ∈ (ofMarkers ms).regions, r.startLine < r.endLine ∧ 1 ≤ r.level := by
  have hs := Multiset.coe_eq_coe.mpr ((regions_perm ms).map Region.startLine)
  have he := Multiset.coe_eq_coe.mpr ((regions_perm ms).map Region.endLine)
  refine ⟨?_, ?_, regions_proper ms⟩
  · rw [hs, linesOf_unclosedStart]
    simpa [Pairing.startLines] using (Pairing.run_startLines {} ms).symm
  · rw [he, linesOf_unmatchedEnd]
    simpa [Pairing.endLines, Fault.linesOf] using (Pairing.run_endLines {} ms).symm

end Outline

end Foldmark

import Foldmark.Proofs.Outline.Nesting

/-!
# Order and causes of faults

The faults of ascending markers come in two rows: those that are found while the markers are read, and
the starts that are still open at the end. A wrong name is reported where a region is closed and
nowhere else. To say so, the pairs of markers that were closed are recovered from the run (`Paired`):
one region and at most one wrong name come from each of them.
-/
namespace Foldmark

open Marker

namespace Marker

/-- Both markers carry a name, and the names differ. -/
def NamesDiffer (start finish : Marker) : Prop :=
  ∃ opening closing, start.name = some opening ∧ finish.name = some closing ∧ opening ≠ closing

/-- The same marker, where an end carries another name. -/
def renameEnd (names : Marker → Option String) (m : Marker) : Marker :=
  match m.kind with
  | .start => m
  | .finish => { m with name := names m }

end Marker

/-- A start and an end on the lines of the region have different names. -/
def Region.Misnamed (markers : List Marker) (r : Region) : Prop :=
  ∃ start ∈ markers, ∃ finish ∈ markers, start.kind = .start ∧ finish.kind = .finish ∧
    start.line = r.startLine ∧ finish.line = r.endLine ∧ NamesDiffer start finish

namespace Fault

/-- One complaint on the line of the end, or none. -/
lemma ofNames_cases (start finish : Marker) :
    ¬ NamesDiffer start finish ∧ ofNames start finish = [] ∨
      NamesDiffer start finish ∧ ∃ f, ofNames start finish = [f] ∧ f.kind = .mismatchedName ∧
        f.line = finish.line := by
  unfold ofNames
  split
  next opening closing hs hf =>
    split_ifs with he
    · refine .inl ⟨?_, rfl⟩
      rintro ⟨a, b, ha, hb, hne⟩
      rw [hs] at ha
      rw [hf] at hb
      exact hne (by rw [← Option.some.inj ha, ← Option.some.inj hb, he])
    · exact .inr ⟨⟨opening, closing, hs, hf, he⟩, _, rfl, rfl, rfl⟩
  next hnone =>
    refine .inl ⟨?_, rfl⟩
    rintro ⟨a, b, ha, hb, -⟩
    exact hnone a b ha hb

lemma exists_mem_ofNames_iff (start finish : Marker) (line : Nat) :
    (∃ f ∈ ofNames start finish, f.line = line) ↔
      NamesDiffer start finish ∧ finish.line = line := by
  rcases ofNames_cases start finish with ⟨hn, he⟩ | ⟨hn, f, he, -, hl⟩
  · simp [hn, he]
  · simp [hn, he, hl]

end Fault

namespace Outline

namespace Pairing

/-! ## Order -/

/-- A step adds at most one fault, on the line of its marker. -/
lemma Step.exists_faults {p q : Pairing} {m : Marker} (h : p.Step m q) :
    ∃ found : Option Fault, q.faults = p.faults ++ found.toList ∧ ∀ f ∈ found, f.line = m.line := by
  cases h with
  | opens hm => exact ⟨none, by simp⟩
  | refuses hm hp fault hf hl => exact ⟨some fault, rfl, by simpa using hl⟩
  | closes hm start rest hp hl =>
    rcases Fault.ofNames_cases start m with ⟨-, he⟩ | ⟨-, f, he, -, hline⟩
    · exact ⟨none, by simp [he]⟩
    · exact ⟨some f, by simp [he], by simpa using hline⟩

/-- What is found while ascending markers are read stands on ascending lines, each of them the line
of a marker. -/
theorem run_faults_ascending (ms : List Marker) (h : Ascending ms) :
    (run {} ms).faults.Pairwise (fun a b => a.line < b.line) ∧
      ∀ f ∈ (run {} ms).faults, ∃ m ∈ ms, m.line = f.line := by
  refine run_induction (fun done p => Ascending done →
    p.faults.Pairwise (fun a b => a.line < b.line) ∧ ∀ f ∈ p.faults, ∃ m ∈ done, m.line = f.line)
    (by simp) ?_ ms h
  intro done m q ih hs ha
  obtain ⟨hdone, -, hbefore⟩ := List.pairwise_append.mp ha
  obtain ⟨hsorted, hlines⟩ := ih hdone
  obtain ⟨found, hq, hnew⟩ := hs.exists_faults
  rw [hq]
  constructor
  · refine List.pairwise_append.mpr ⟨hsorted, by cases found <;> simp, ?_⟩
    intro a ha b hb
    obtain ⟨m', hm', hl⟩ := hlines a ha
    rw [← hl, hnew b (Option.mem_toList.mp hb)]
    exact hbefore m' hm' m (List.mem_singleton_self m)
  · intro f hf
    rcases List.mem_append.mp hf with hf | hf
    · obtain ⟨m', hm', hl⟩ := hlines f hf
      exact ⟨m', List.mem_append_left _ hm', hl⟩
    · exact ⟨m, by simp, (hnew f (Option.mem_toList.mp hf)).symm⟩

/-! ## Closed pairs -/

theorem pending_kind (ms : List Marker) : ∀ a ∈ (run {} ms).pending, a.kind = .start := by
  refine run_invariant (fun p => ∀ a ∈ p.pending, a.kind = .start) ?_ {} ms (by simp)
  intro p m q h hp a ha
  cases h with
  | opens hm =>
    rcases List.mem_cons.mp ha with rfl | ha
    · exact hm
    · exact hp a ha
  | refuses hm hh fault hf hl => exact hp a ha
  | closes hm start rest hh hl => exact hp a (by simp [hh, ha])

/-- The pairs of a start and an end that were closed, in the order of their ends. -/
structure Paired (done : List Marker) (p : Pairing) (pairs : List (Marker × Marker)) : Prop where
  mem : ∀ e ∈ pairs, e.1 ∈ done ∧ e.2 ∈ done ∧ e.1.kind = .start ∧ e.2.kind = .finish
  closed : p.closed.map (fun r => (r.startLine, r.endLine)) =
    pairs.map fun e => (e.1.line, e.2.line)
  mismatches : p.faults.filter (fun f => f.kind = .mismatchedName) =
    pairs.flatMap fun e => Fault.ofNames e.1 e.2

lemma Paired.exists_pair {done : List Marker} {p : Pairing} {pairs : List (Marker × Marker)}
    (h : Paired done p pairs) {r : Region} (hr : r ∈ p.closed) :
    ∃ e ∈ pairs, e.1.line = r.startLine ∧ e.2.line = r.endLine := by
  have hlines : (r.startLine, r.endLine) ∈ pairs.map fun e => (e.1.line, e.2.line) :=
    h.closed ▸ List.mem_map.mpr ⟨r, hr, rfl⟩
  simpa using hlines

lemma Paired.exists_region {done : List Marker} {p : Pairing} {pairs : List (Marker × Marker)}
    (h : Paired done p pairs) {e : Marker × Marker} (he : e ∈ pairs) :
    ∃ r ∈ p.closed, r.startLine = e.1.line ∧ r.endLine = e.2.line := by
  have hlines : (e.1.line, e.2.line) ∈ p.closed.map fun r => (r.startLine, r.endLine) :=
    h.closed ▸ List.mem_map.mpr ⟨e, he, rfl⟩
  simpa using hlines

lemma Paired.step {done : List Marker} {p q : Pairing} {m : Marker} {pairs : List (Marker × Marker)}
    (h : Paired done p pairs) (hs : p.Step m q) (hmem : ∀ a ∈ p.pending, a ∈ done)
    (hkind : ∀ a ∈ p.pending, a.kind = .start) : ∃ pairs', Paired (done ++ [m]) q pairs' := by
  have hold : ∀ e ∈ pairs, e.1 ∈ done ++ [m] ∧ e.2 ∈ done ++ [m] ∧ e.1.kind = .start ∧
      e.2.kind = .finish := by
    intro e he
    obtain ⟨hfst, hsnd, hkinds⟩ := h.mem e he
    exact ⟨List.mem_append_left _ hfst, List.mem_append_left _ hsnd, hkinds⟩
  cases hs with
  | opens hm => exact ⟨pairs, hold, h.closed, h.mismatches⟩
  | refuses hm hp fault hf hl =>
    refine ⟨pairs, hold, h.closed, ?_⟩
    rw [List.filter_append, h.mismatches, List.filter_cons_of_neg (by simp [hf])]
    simp
  | closes hm start rest hp hl =>
    refine ⟨pairs ++ [(start, m)], ?_, by simp [h.closed], ?_⟩
    · intro e he
      rcases List.mem_append.mp he with he | he
      · exact hold e he
      · rw [List.mem_singleton.mp he]
        have hstart : start ∈ p.pending := by simp [hp]
        exact ⟨List.mem_append_left _ (hmem start hstart), by simp, hkind start hstart, hm⟩
    · have hall : (Fault.ofNames start m).filter (fun f => f.kind = .mismatchedName) =
          Fault.ofNames start m := by
        rw [List.filter_eq_self]
        intro f hf
        simp [Fault.kind_of_mem_ofNames start m f hf]
      rw [List.filter_append, h.mismatches, hall]
      simp

theorem run_paired (ms : List Marker) : ∃ pairs, Paired ms (run {} ms) pairs := by
  refine run_induction (fun done p => ∃ pairs, Paired done p pairs) ⟨[], ?_, rfl, rfl⟩ ?_ ms
  · simp
  · rintro done m q ⟨pairs, h⟩ hs
    exact h.step hs (mem_pending_run done) (pending_kind done)

/-! ## Names of ends -/

/-- The name of an end decides about faults only. -/
lemma step_renameEnd (names : Marker → Option String) (p q : Pairing) (m : Marker)
    (hp : q.pending = p.pending) (hc : q.closed = p.closed) :
    (q.step (m.renameEnd names)).pending = (p.step m).pending ∧
      (q.step (m.renameEnd names)).closed = (p.step m).closed := by
  cases hm : m.kind with
  | start => simp [renameEnd, step, hm, hp, hc]
  | finish =>
    simp only [renameEnd, step, hm, hp]
    split
    · exact ⟨rfl, hc⟩
    · split_ifs
      · exact ⟨rfl, hc⟩
      · exact ⟨rfl, by rw [hc]⟩

theorem run_renameEnd (names : Marker → Option String) (p q : Pairing) (ms : List Marker)
    (hp : q.pending = p.pending) (hc : q.closed = p.closed) :
    (q.run (ms.map (renameEnd names))).closed = (p.run ms).closed := by
  induction ms generalizing p q with
  | nil => exact hc
  | cons m ms ih =>
    obtain ⟨hp', hc'⟩ := step_renameEnd names p q m hp hc
    exact ih _ _ hp' hc'

end Pairing

/-! ## The faults of an outline -/

/-- A region reaches from the line of a start to the line of an end, in whatever order the markers
come. -/
theorem exists_markers_of_mem_regions (ms : List Marker) (r : Region)
    (hr : r ∈ (ofMarkers ms).regions) :
    ∃ start ∈ ms, ∃ finish ∈ ms, start.line = r.startLine ∧ finish.line = r.endLine := by
  obtain ⟨pairs, hpairs⟩ := Pairing.run_paired ms
  obtain ⟨e, he, hs, hf⟩ := hpairs.exists_pair ((mem_regions ms r).mp hr)
  obtain ⟨hfst, hsnd, -⟩ := hpairs.mem e he
  exact ⟨e.1, hfst, e.2, hsnd, hs, hf⟩

lemma mem_faults_of_mismatchedName (ms : List Marker) (f : Fault) (hk : f.kind = .mismatchedName) :
    f ∈ (ofMarkers ms).faults ↔ f ∈ (Pairing.run {} ms).faults := by
  simp only [ofMarkers, List.mem_append, or_iff_left_iff_imp]
  intro hf
  rw [Fault.kind_of_mem_neverClosed _ f hf] at hk
  cases hk

/-- Wrong names are reported on the lines where pairs with different names end. -/
lemma exists_mismatchedName_of_paired (ms : List Marker) {pairs : List (Marker × Marker)}
    (h : Pairing.Paired ms (Pairing.run {} ms) pairs) (line : Nat) :
    (∃ f ∈ (ofMarkers ms).faults, f.kind = .mismatchedName ∧ f.line = line) ↔
      ∃ e ∈ pairs, NamesDiffer e.1 e.2 ∧ e.2.line = line := by
  have hmem : ∀ f : Fault, f ∈ (ofMarkers ms).faults ∧ f.kind = .mismatchedName ↔
      ∃ e ∈ pairs, f ∈ Fault.ofNames e.1 e.2 := by
    intro f
    rw [← List.mem_flatMap, ← h.mismatches, List.mem_filter, decide_eq_true_eq]
    exact and_congr_left fun hk => mem_faults_of_mismatchedName ms f hk
  simp only [← Fault.exists_mem_ofNames_iff, ← and_assoc, hmem]
  constructor
  · rintro ⟨f, ⟨e, he, hf⟩, hl⟩
    exact ⟨e, he, f, hf, hl⟩
  · rintro ⟨e, he, f, hf, hl⟩
    exact ⟨f, ⟨e, he, hf⟩, hl⟩

/-- A wrong name is reported on a line if and only if a region ends there whose start and end have
different names. -/
theorem exists_mismatchedName_iff (ms : List Marker) (h : Ascending ms) (line : Nat) :
    (∃ f ∈ (ofMarkers ms).faults, f.kind = .mismatchedName ∧ f.line = line) ↔
      ∃ r ∈ (ofMarkers ms).regions, r.endLine = line ∧ r.Misnamed ms := by
  obtain ⟨pairs, hpairs⟩ := Pairing.run_paired ms
  rw [exists_mismatchedName_of_paired ms hpairs]
  constructor
  · rintro ⟨e, he, hdiffer, rfl⟩
    obtain ⟨r, hr, hs, hf⟩ := hpairs.exists_region he
    obtain ⟨hfst, hsnd, hks, hkf⟩ := hpairs.mem e he
    exact ⟨r, (mem_regions ms r).mpr hr, hf, e.1, hfst, e.2, hsnd, hks, hkf, hs.symm, hf.symm,
      hdiffer⟩
  · rintro ⟨r, hr, rfl, start, hstart, finish, hfinish, -, -, hs, hf, hdiffer⟩
    obtain ⟨e, he, hse, hfe⟩ := hpairs.exists_pair ((mem_regions ms r).mp hr)
    obtain ⟨hfst, hsnd, -⟩ := hpairs.mem e he
    -- no other marker stands on the lines of the pair
    obtain rfl := h.eq_of_line_eq hstart hfst (hs.trans hse.symm)
    obtain rfl := h.eq_of_line_eq hfinish hsnd (hf.trans hfe.symm)
    exact ⟨e, he, hdiffer, hf⟩

/-- The starts that are left open are reported from the outermost to the innermost. -/
lemma neverClosed_ascending (ms : List Marker) (h : Ascending ms) :
    ((Pairing.run {} ms).pending.reverse.map Fault.neverClosed).Pairwise
      fun a b => a.line < b.line := by
  obtain ⟨last, hn⟩ := Pairing.nested_of_ascending ms h
  exact List.pairwise_map.mpr (List.pairwise_reverse.mpr hn.stacked)

/-- The faults of ascending markers. Those of the ends come first and then the starts that are left
open, each in the order of their lines. A wrong name is reported exactly where a region ends whose
start and end have different names. Regions do not depend on the names of ends: every matching pair
is one, whatever its names. -/
theorem ofMarkers_faults (ms : List Marker) (h : Ascending ms) :
    (∃ ends starts, (ofMarkers ms).faults = ends ++ starts ∧
      (∀ f ∈ ends, f.kind = .unmatchedEnd ∨ f.kind = .mismatchedName) ∧
      ends.Pairwise (fun a b => a.line < b.line) ∧
      (∀ f ∈ starts, f.kind = .unclosedStart) ∧
      starts.Pairwise (fun a b => a.line < b.line)) ∧
    (∀ line, (∃ f ∈ (ofMarkers ms).faults, f.kind = .mismatchedName ∧ f.line = line) ↔
      ∃ r ∈ (ofMarkers ms).regions, r.endLine = line ∧ r.Misnamed ms) ∧
    (∀ start finish, Matches ms start finish →
      ∃ level, Region.ofPair start finish level ∈ (ofMarkers ms).regions) ∧
    ∀ names, (ofMarkers (ms.map (renameEnd names))).regions = (ofMarkers ms).regions := by
  refine ⟨⟨(Pairing.run {} ms).faults, _, rfl, ?_, (Pairing.run_faults_ascending ms h).1, ?_,
    neverClosed_ascending ms h⟩, exists_mismatchedName_iff ms h, exists_region_of_matches ms h, ?_⟩
  · intro f hf
    have hk := Pairing.run_faults_kind ms f hf
    cases hkind : f.kind with
    | unmatchedEnd => exact .inl rfl
    | mismatchedName => exact .inr rfl
    | unclosedStart => exact absurd hkind hk
  · intro f hf
    obtain ⟨m, -, rfl⟩ := List.mem_map.mp hf
    rfl
  · intro names
    exact congrArg (List.mergeSort · precedes) (Pairing.run_renameEnd names {} {} ms rfl rfl)

/-- An end without a start, a wrong name and two starts that are left open. -/
theorem ofMarkers_faults_stray :
    Ascending strayMarkers ∧
      (∃ f ∈ (ofMarkers strayMarkers).faults, f.kind = .mismatchedName ∧ f.line = 4) ∧
      (∃ level, Region.ofPair ⟨3, .start, some "x", true⟩ ⟨4, .finish, some "y", false⟩ level ∈
        (ofMarkers strayMarkers).regions) ∧
      (ofMarkers (strayMarkers.map (renameEnd fun _ => none))).regions =
        (ofMarkers strayMarkers).regions := by
  have ha : Ascending strayMarkers := by decide
  have hm : Matches strayMarkers ⟨3, .start, some "x", true⟩ ⟨4, .finish, some "y", false⟩ :=
    ⟨by decide, by decide, rfl, rfl, by decide, by decide⟩
  have hnames : NamesDiffer ⟨3, .start, some "x", true⟩ ⟨4, .finish, some "y", false⟩ :=
    ⟨"x", "y", rfl, rfl, by decide⟩
  obtain ⟨-, hmismatch, hkept, hrenamed⟩ := ofMarkers_faults strayMarkers ha
  obtain ⟨level, hr⟩ := hkept _ _ hm
  exact ⟨ha, (hmismatch 4).mpr
    ⟨_, hr, rfl, _, hm.start_mem, _, hm.finish_mem, rfl, rfl, rfl, rfl, hnames⟩,
    ⟨level, hr⟩, hrenamed _⟩

end Outline

end Foldmark

import Foldmark.Proofs.Marker.Balance
import Foldmark.Proofs.Outline.Conservation

/-!
# Matching

On ascending markers the pairing is the bracket matching: the regions are exactly the pairs of a
start and a later end with a balanced row of markers between them. One half of this reads the
open starts off the markers that were read (`Frames`), the other half says that a balanced row
leaves the pending starts as they were (`run_above`). Ends without a start and starts that are never
closed may stand anywhere.
-/
namespace Foldmark

open Marker

/-- A start and an end that belong together: between their lines the markers are balanced. -/
structure Marker.Matches (markers : List Marker) (start finish : Marker) : Prop where
  start_mem : start ∈ markers
  finish_mem : finish ∈ markers
  start_kind : start.kind = .start
  finish_kind : finish.kind = .finish
  ordered : start.line < finish.line
  balanced : Balanced (between markers start.line finish.line)

namespace Outline

namespace Pairing

/-- Only starts that were read can wait for their end. -/
theorem mem_pending_run (ms : List Marker) : ∀ a ∈ (run {} ms).pending, a ∈ ms := by
  refine run_induction (fun done p => ∀ a ∈ p.pending, a ∈ done) (by simp) ?_ ms
  intro done m q ih h a ha
  cases h with
  | opens hm =>
    rcases List.mem_cons.mp ha with rfl | ha
    · simp
    · exact List.mem_append_left _ (ih a ha)
  | refuses hm hp fault hf hl => exact List.mem_append_left _ (ih a ha)
  | closes hm start rest hp hl => exact List.mem_append_left _ (ih a (by simp [hp, ha]))

/-- So on ascending markers they stand before the next one. -/
lemma pending_lt_of_ascending (done : List Marker) (m : Marker) (h : Ascending (done ++ [m])) :
    ∀ a ∈ (run {} done).pending, a.line < m.line := by
  intro a ha
  exact (List.pairwise_append.mp h).2.2 a (mem_pending_run done a ha) m (List.mem_singleton_self m)

/-! ## What the open starts say about the markers read -/

/-- The pending starts, innermost first, cut the markers read so far. Behind each of them the
markers up to the next one are balanced. Nothing is known of what precedes the outermost. -/
inductive Frames : List Marker → List Marker → Prop
  | outside (done : List Marker) : Frames done []
  | inside {done stack : List Marker} (hd : Frames done stack) (start : Marker)
      (hs : start.kind = .start) (inner : List Marker) (hi : Balanced inner) :
      Frames (done ++ start :: inner) (start :: stack)

lemma Frames.extend {done stack : List Marker} (h : Frames done stack) {block : List Marker}
    (hb : Balanced block) : Frames (done ++ block) stack := by
  cases h with
  | outside => exact .outside _
  | inside hd start hs inner hi =>
    rw [List.append_assoc, List.cons_append]
    exact .inside hd start hs _ (hi.append hb)

lemma Frames.step {done : List Marker} {p q : Pairing} {m : Marker} (hf : Frames done p.pending)
    (h : p.Step m q) (hl : ∀ a ∈ p.pending, a.line < m.line) :
    Frames (done ++ [m]) q.pending := by
  cases h with
  | opens hm => exact .inside hf m hm [] balanced_nil
  | refuses hm hp fault hk hf' =>
    -- an open start would stand on an earlier line and the end would close it
    cases hpend : p.pending with
    | nil => exact .outside _
    | cons start rest =>
      have hlt := hl start (by simp [hpend])
      have hge := hp start (by simp [hpend])
      omega
  | closes hm start rest hp hlt =>
    rw [hp] at hf
    cases hf with
    | inside hd _ hs inner hi =>
      rw [List.append_assoc, List.cons_append]
      exact hd.extend (hi.enclose start m hs hm)

theorem run_frames (ms : List Marker) (h : Ascending ms) : Frames ms (run {} ms).pending := by
  refine run_induction (fun done p => Ascending done → Frames done p.pending) ?_ ?_ ms h
  · exact fun _ => .outside []
  · intro done m q ih hs ha
    exact (ih (List.pairwise_append.mp ha).1).step hs (pending_lt_of_ascending done m ha)

/-- The region reaches from a start to an end of the markers with a balanced row between them. -/
def Bounded (ms : List Marker) (r : Region) : Prop :=
  ∃ before start inner finish after level,
    ms = before ++ start :: (inner ++ finish :: after) ∧ start.kind = .start ∧
      finish.kind = .finish ∧ Balanced inner ∧ r = Region.ofPair start finish level

lemma Bounded.append {ms : List Marker} {r : Region} (h : Bounded ms r) (more : List Marker) :
    Bounded (ms ++ more) r := by
  obtain ⟨before, start, inner, finish, after, level, rfl, hrest⟩ := h
  exact ⟨before, start, inner, finish, after ++ more, level, by simp, hrest⟩

theorem bounded_of_mem_closed (ms : List Marker) (h : Ascending ms) :
    ∀ r ∈ (run {} ms).closed, Bounded ms r := by
  refine run_induction (fun done p => Ascending done → ∀ r ∈ p.closed, Bounded done r) ?_ ?_ ms h
  · simp
  intro done m q ih hs ha r hr
  have hdone := (List.pairwise_append.mp ha).1
  cases hs with
  | opens hm => exact (ih hdone r hr).append [m]
  | refuses hm hp fault hk hl => exact (ih hdone r hr).append [m]
  | closes hm start rest hp hl =>
    rcases List.mem_append.mp hr with hr | hnew
    · exact (ih hdone r hr).append [m]
    · have hf := run_frames done hdone
      have he := List.mem_singleton.mp hnew
      rw [hp] at hf
      cases hf with
      | @inside before _ hd _ hk inner hi =>
        exact ⟨before, start, inner, m, [], rest.length + 1, by simp, hk, hm, hi, he⟩

/-! ## What a balanced row does to the open starts -/

/-- A pairing that goes on above the pending starts of another one. Its regions lie that much
deeper. -/
def above (inner outer : Pairing) : Pairing where
  pending := inner.pending ++ outer.pending
  closed := outer.closed ++
    inner.closed.map fun r => { r with level := r.level + outer.pending.length }
  faults := outer.faults ++ inner.faults

@[simp] theorem empty_above (outer : Pairing) : above {} outer = outer := by
  simp [above]

/-- A step does not look below a pending start. It needs none where nothing lies below. -/
lemma step_above (inner outer : Pairing) (m : Marker)
    (h : m.kind = .finish → inner.pending = [] → outer.pending = []) :
    (inner.above outer).step m = (inner.step m).above outer := by
  cases hm : m.kind with
  | start =>
    rw [step_of_start _ m hm, step_of_start _ m hm]
    simp [above]
  | finish =>
    cases hp : inner.pending with
    | nil =>
      have hp' : (inner.above outer).pending = [] := by
        simp [above, hp, h hm hp]
      rw [step_of_nil _ m hm hp', step_of_nil _ m hm hp]
      simp [above]
    | cons start rest =>
      have hp' : (inner.above outer).pending = start :: (rest ++ outer.pending) := by
        simp [above, hp]
      rw [step_of_cons _ m start _ hm hp', step_of_cons _ m start rest hm hp]
      split_ifs with hl
      · simp [above]
      · simp [above, Region.ofPair]
        omega

/-- Nor does a run, as long as each of its ends finds a start of its own open. -/
theorem run_above (inner outer : Pairing) (ms : List Marker)
    (h : ∀ before m, before ++ [m] <+: ms → m.kind = .finish →
      (inner.run before).pending = [] → outer.pending = []) :
    (inner.above outer).run ms = (inner.run ms).above outer := by
  induction ms using List.reverseRecOn with
  | nil => rfl
  | append_singleton ms m ih =>
    have hms := ih fun before a hb => h before a (hb.trans (List.prefix_append ms [m]))
    rw [run_concat, run_concat, hms]
    exact step_above _ _ m (h ms m List.prefix_rfl)

/-- An end takes away at most one open start. -/
theorem pending_length_le (ms : List Marker) :
    countOf .start ms ≤ (run {} ms).pending.length + countOf .finish ms := by
  refine run_induction
    (fun done p => countOf .start done ≤ p.pending.length + countOf .finish done) (by simp) ?_ ms
  intro done m q ih h
  cases h with
  | opens hm => simp [hm]; omega
  | refuses hm hp fault hf hl => simp [hm]; omega
  | closes hm start rest hp hl => simp [hm, hp] at ih ⊢; omega

/-- On ascending markers, if no beginning has more ends than starts, it takes away exactly one. -/
theorem pending_length_eq (ms : List Marker) (h : Ascending ms)
    (hc : ∀ before, before <+: ms → countOf .finish before ≤ countOf .start before) :
    countOf .start ms = (run {} ms).pending.length + countOf .finish ms := by
  refine run_induction (fun done p => Ascending done →
    (∀ before, before <+: done → countOf .finish before ≤ countOf .start before) →
      countOf .start done = p.pending.length + countOf .finish done) (by simp) ?_ ms h hc
  intro done m q ih hs ha hc
  have ih := ih (List.pairwise_append.mp ha).1
    fun before hb => hc before (hb.trans (List.prefix_append done [m]))
  cases hs with
  | opens hm => simp [hm]; omega
  | refuses hm hp fault hf hl =>
    cases hpend : (run {} done).pending with
    | nil =>
      have hcm := hc (done ++ [m]) List.prefix_rfl
      simp [hm, hpend] at ih hcm
      omega
    | cons start rest =>
      have hge := hp start (by simp [hpend])
      have hlt := pending_lt_of_ascending done m ha start (by simp [hpend])
      omega
  | closes hm start rest hp hl => simp [hm, hp] at ih ⊢; omega

theorem run_balanced (p : Pairing) (ms : List Marker) (hb : Balanced ms) :
    p.run ms = (run {} ms).above p := by
  have h := run_above {} p ms fun before m hm hk he => ?_
  · rwa [empty_above] at h
  · have hc := hb.covered _ hm
    have hl := pending_length_le before
    rw [he] at hl
    simp [hk] at hc hl
    omega

/-- A balanced row closes all that it opens and nothing else. -/
theorem run_balanced_pending (p : Pairing) (ms : List Marker) (hb : Balanced ms)
    (ha : Ascending ms) : (p.run ms).pending = p.pending := by
  have hl := pending_length_eq ms ha hb.covered
  have he := hb.even
  have hz : (run {} ms).pending = [] := List.eq_nil_of_length_eq_zero (by omega)
  rw [run_balanced p ms hb, above, hz, List.nil_append]

theorem mem_closed_of_split (before inner after : List Marker) (start finish : Marker)
    (h : Ascending (before ++ start :: (inner ++ finish :: after))) (hs : start.kind = .start)
    (hf : finish.kind = .finish) (hb : Balanced inner) :
    Region.ofPair start finish ((run {} before).pending.length + 1) ∈
      (run {} (before ++ start :: (inner ++ finish :: after))).closed := by
  obtain ⟨hstart, htail⟩ := List.pairwise_cons.mp (List.pairwise_append.mp h).2.1
  have hlt : start.line < finish.line := hstart finish (by simp)
  have hinner : Ascending inner := (List.pairwise_append.mp htail).1
  let p := (run {} before).step start
  have hp : (p.run inner).pending = start :: (run {} before).pending := by
    rw [run_balanced_pending p inner hb hinner]
    exact congrArg Pairing.pending (step_of_start _ start hs)
  have hstep := step_of_cons (p.run inner) finish start _ hf hp
  rw [if_neg (by omega)] at hstep
  rw [run_append, run_cons, run_append, run_cons]
  refine (closed_prefix_run _ after).mem ?_
  rw [hstep]
  simp

/-- No two regions start on one line, for no two markers stand on it. -/
theorem closed_startLines_nodup (ms : List Marker) (h : Ascending ms) :
    ((run {} ms).closed.map Region.startLine).Nodup := by
  have hs : (run {} ms).startLines.Nodup := by
    rw [run_startLines]
    have hl : Ascending (ms.filter fun m => m.kind = .start) := h.filter _
    simpa [startLines, linesOf] using hl.nodup_lines
  exact Multiset.coe_nodup.mp (Multiset.nodup_of_le (Multiset.le_add_right _ _) hs)

end Pairing

/-- The cut of the markers at a matching pair, and back. -/
lemma matches_iff_split (ms : List Marker) (h : Ascending ms) (start finish : Marker) :
    Matches ms start finish ↔ ∃ before inner after,
      ms = before ++ start :: (inner ++ finish :: after) ∧ start.kind = .start ∧
        finish.kind = .finish ∧ Balanced inner := by
  constructor
  · intro hm
    obtain ⟨before, inner, after, rfl⟩ :=
      exists_split ms h start finish hm.start_mem hm.finish_mem hm.ordered
    have hb := hm.balanced
    rw [between_split before inner after start finish h] at hb
    exact ⟨before, inner, after, rfl, hm.start_kind, hm.finish_kind, hb⟩
  · rintro ⟨before, inner, after, rfl, hs, hf, hb⟩
    have hstart := (List.pairwise_cons.mp (List.pairwise_append.mp h).2.1).1
    refine ⟨by simp, by simp, hs, hf, hstart finish (by simp), ?_⟩
    rwa [between_split before inner after start finish h]

theorem exists_matches_of_mem_regions (ms : List Marker) (h : Ascending ms) (r : Region)
    (hr : r ∈ (ofMarkers ms).regions) :
    ∃ start finish, Matches ms start finish ∧ ∃ level, r = Region.ofPair start finish level := by
  obtain ⟨before, start, inner, finish, after, level, he, hs, hf, hb, hr⟩ :=
    Pairing.bounded_of_mem_closed ms h r ((mem_regions ms r).mp hr)
  exact ⟨start, finish,
    (matches_iff_split ms h start finish).mpr ⟨before, inner, after, he, hs, hf, hb⟩, level, hr⟩

theorem exists_region_of_matches (ms : List Marker) (h : Ascending ms) (start finish : Marker)
    (hm : Matches ms start finish) :
    ∃ level, Region.ofPair start finish level ∈ (ofMarkers ms).regions := by
  obtain ⟨before, inner, after, rfl, hs, hf, hb⟩ := (matches_iff_split ms h start finish).mp hm
  exact ⟨_, (mem_regions _ _).mpr
    (Pairing.mem_closed_of_split before inner after start finish h hs hf hb)⟩

theorem regions_startLines_nodup (ms : List Marker) (h : Ascending ms) :
    ((ofMarkers ms).regions.map Region.startLine).Nodup :=
  ((regions_perm ms).map Region.startLine).nodup_iff.mpr (Pairing.closed_startLines_nodup ms h)

/-- The region between two lines is the only one there. -/
lemma filter_regions_eq (ms : List Marker) (h : Ascending ms) (r : Region)
    (hr : r ∈ (ofMarkers ms).regions) :
    ((ofMarkers ms).regions.filter fun a => a.startLine = r.startLine ∧ a.endLine = r.endLine) =
      [r] := by
  have hn := regions_startLines_nodup ms h
  apply List.perm_singleton.mp
  refine (List.perm_ext_iff_of_nodup ((List.Nodup.of_map _ hn).filter _)
    (List.nodup_singleton r)).mpr fun a => ?_
  simp only [List.mem_filter, decide_eq_true_eq, List.mem_singleton]
  constructor
  · rintro ⟨ha, hs, _⟩
    exact List.inj_on_of_nodup_map hn ha hr hs
  · rintro rfl
    exact ⟨hr, rfl, rfl⟩

/-- The regions of ascending markers are the matching pairs of a start and an end, each once and
with the name and the fold flag of its start. -/
theorem ofMarkers_matching (ms : List Marker) (h : Ascending ms) :
    (∀ first last,
      (∃ r ∈ (ofMarkers ms).regions, r.startLine = first ∧ r.endLine = last) ↔
        ∃ start finish, Matches ms start finish ∧ start.line = first ∧ finish.line = last) ∧
      ∀ start finish, Matches ms start finish → ∃ level,
        ((ofMarkers ms).regions.filter fun r =>
          r.startLine = start.line ∧ r.endLine = finish.line) =
            [⟨start.line, finish.line, level, start.name, start.foldDefault⟩] := by
  refine ⟨fun first last => ⟨?_, ?_⟩, ?_⟩
  · rintro ⟨r, hr, rfl, rfl⟩
    obtain ⟨start, finish, hm, level, rfl⟩ := exists_matches_of_mem_regions ms h r hr
    exact ⟨start, finish, hm, rfl, rfl⟩
  · rintro ⟨start, finish, hm, rfl, rfl⟩
    obtain ⟨level, hr⟩ := exists_region_of_matches ms h start finish hm
    exact ⟨_, hr, rfl, rfl⟩
  · intro start finish hm
    obtain ⟨level, hr⟩ := exists_region_of_matches ms h start finish hm
    exact ⟨level, filter_regions_eq ms h _ hr⟩

/-- An end without a start, and a region inside a start that is never closed. -/
def strayMarkers : List Marker :=
  [⟨1, .finish, none, false⟩, ⟨2, .start, some "outer", false⟩, ⟨3, .start, some "x", true⟩,
    ⟨4, .finish, some "y", false⟩, ⟨5, .start, none, false⟩]

theorem ofMarkers_matching_stray :
    Ascending strayMarkers ∧
      (∃ r ∈ (ofMarkers strayMarkers).regions, r.startLine = 3 ∧ r.endLine = 4) ∧
      ∃ level, ((ofMarkers strayMarkers).regions.filter fun r =>
        r.startLine = 3 ∧ r.endLine = 4) = [⟨3, 4, level, some "x", true⟩] := by
  have ha : Ascending strayMarkers := by decide
  have hm : Matches strayMarkers ⟨3, .start, some "x", true⟩ ⟨4, .finish, some "y", false⟩ :=
    ⟨by decide, by decide, rfl, rfl, by decide, by decide⟩
  obtain ⟨hpair, honce⟩ := ofMarkers_matching strayMarkers ha
  exact ⟨ha, (hpair 3 4).mpr ⟨_, _, hm, rfl, rfl⟩, honce _ _ hm⟩

end Outline

end Foldmark

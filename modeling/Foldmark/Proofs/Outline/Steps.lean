import Foldmark.Outline.Pairing
import Mathlib.Data.List.Induction
import Mathlib.Tactic.Lemma

/-!
# Steps of the pairing

A marker does one of three things to a pairing: a start is opened, an end closes the innermost
open start, or an end is refused. `Pairing.Step` lists the three with everything that is known in
each of them. What holds along a run is proved of a `Step` first and then, by induction on the
markers, of `Pairing.run`.
-/
namespace Foldmark

/-- The region between a start marker and its end. Name and fold flag come from the start. -/
def Region.ofPair (start finish : Marker) (level : Nat) : Region :=
  ⟨start.line, finish.line, level, start.name, start.foldDefault⟩

@[simp] theorem Region.ofPair_startLine (start finish : Marker) (level : Nat) :
    (Region.ofPair start finish level).startLine = start.line := rfl

@[simp] theorem Region.ofPair_endLine (start finish : Marker) (level : Nat) :
    (Region.ofPair start finish level).endLine = finish.line := rfl

@[simp] theorem Region.ofPair_level (start finish : Marker) (level : Nat) :
    (Region.ofPair start finish level).level = level := rfl

namespace Fault

/-- Names are all that can be wrong with an end that closes a region. -/
lemma kind_of_mem_ofNames (start finish : Marker) (fault : Fault)
    (h : fault ∈ ofNames start finish) : fault.kind = .mismatchedName := by
  unfold ofNames at h
  split at h
  · split_ifs at h with he
    · cases h
    · rw [List.mem_singleton.mp h]
      rfl
  · cases h

/-- Starts that are left open are reported as such. -/
lemma kind_of_mem_neverClosed (starts : List Marker) (fault : Fault)
    (h : fault ∈ starts.map neverClosed) : fault.kind = .unclosedStart := by
  obtain ⟨start, -, rfl⟩ := List.mem_map.mp h
  rfl

end Fault

namespace Outline

namespace Pairing

/-- What one marker may do to a pairing. -/
inductive Step (p : Pairing) (m : Marker) : Pairing → Prop
  | opens (hm : m.kind = .start) : Step p m { p with pending := m :: p.pending }
  /-- No start is open, or the innermost one does not stand on an earlier line. -/
  | refuses (hm : m.kind = .finish) (hp : ∀ start ∈ p.pending.head?, m.line ≤ start.line)
      (fault : Fault) (hf : fault.kind = .unmatchedEnd) (hl : fault.line = m.line) :
      Step p m { p with faults := p.faults ++ [fault] }
  | closes (hm : m.kind = .finish) (start : Marker) (rest : List Marker)
      (hp : p.pending = start :: rest) (hl : start.line < m.line) :
      Step p m
        { pending := rest
          closed := p.closed ++ [Region.ofPair start m (rest.length + 1)]
          faults := p.faults ++ Fault.ofNames start m }

lemma step_of_start (p : Pairing) (m : Marker) (hm : m.kind = .start) :
    p.step m = { p with pending := m :: p.pending } := by
  simp only [step, hm]

lemma step_of_nil (p : Pairing) (m : Marker) (hm : m.kind = .finish) (hp : p.pending = []) :
    p.step m = { p with faults := p.faults ++ [Fault.noStart m.line] } := by
  simp only [step, hm, hp]

lemma step_of_cons (p : Pairing) (m start : Marker) (rest : List Marker)
    (hm : m.kind = .finish) (hp : p.pending = start :: rest) :
    p.step m = if m.line ≤ start.line then
        { p with faults := p.faults ++ [Fault.sameLine m.line] }
      else
        { pending := rest
          closed := p.closed ++ [Region.ofPair start m (rest.length + 1)]
          faults := p.faults ++ Fault.ofNames start m } := by
  simp only [step, hm, hp, Region.ofPair]

/-- Every step is one of the three. -/
theorem step_spec (p : Pairing) (m : Marker) : p.Step m (p.step m) := by
  cases hm : m.kind with
  | start =>
    rw [step_of_start p m hm]
    exact .opens hm
  | finish =>
    cases hp : p.pending with
    | nil =>
      rw [step_of_nil p m hm hp]
      exact .refuses hm (by simp [hp]) _ rfl rfl
    | cons start rest =>
      rw [step_of_cons p m start rest hm hp]
      split_ifs with hl
      · exact .refuses hm (by simpa [hp] using hl) _ rfl rfl
      · exact .closes hm start rest hp (by omega)

@[simp] theorem run_nil (p : Pairing) : p.run [] = p := rfl

@[simp] theorem run_cons (p : Pairing) (m : Marker) (ms : List Marker) :
    p.run (m :: ms) = (p.step m).run ms := rfl

theorem run_append (p : Pairing) (xs ys : List Marker) :
    p.run (xs ++ ys) = (p.run xs).run ys := List.foldl_append

@[simp] theorem run_concat (p : Pairing) (xs : List Marker) (m : Marker) :
    p.run (xs ++ [m]) = (p.run xs).step m := by rw [run_append, run_cons, run_nil]

/-- What every step keeps holds at the end of a run. -/
theorem run_invariant (P : Pairing → Prop)
    (hstep : ∀ p m q, p.Step m q → P p → P q) (p : Pairing) (ms : List Marker) (hp : P p) :
    P (p.run ms) := by
  induction ms generalizing p with
  | nil => exact hp
  | cons m ms ih => exact ih (p.step m) (hstep p m _ (step_spec p m) hp)

/-- Induction along a run from the start of a document. The statement may speak of the markers read
so far and of the pairing that they lead to. -/
theorem run_induction (P : List Marker → Pairing → Prop) (hnil : P [] {})
    (hstep : ∀ done m q, P done (run {} done) → (run {} done).Step m q → P (done ++ [m]) q)
    (ms : List Marker) : P ms (run {} ms) := by
  induction ms using List.reverseRecOn with
  | nil => exact hnil
  | append_singleton done m ih =>
    rw [run_concat]
    exact hstep done m _ ih (step_spec _ m)

/-- No step takes a region back. -/
theorem closed_prefix_run (p : Pairing) (ms : List Marker) : p.closed <+: (p.run ms).closed := by
  refine run_invariant (fun q => p.closed <+: q.closed) ?_ p ms (List.prefix_refl _)
  intro q m r h hq
  cases h with
  | opens hm => exact hq
  | refuses hm hp fault hf hl => exact hq
  | closes hm start rest hp hl => exact hq.trans (List.prefix_append _ _)

/-- Nor a fault. -/
theorem faults_prefix_run (p : Pairing) (ms : List Marker) : p.faults <+: (p.run ms).faults := by
  refine run_invariant (fun q => p.faults <+: q.faults) ?_ p ms (List.prefix_refl _)
  intro q m r h hq
  cases h with
  | opens hm => exact hq
  | refuses hm hp fault hf hl => exact hq.trans (List.prefix_append _ _)
  | closes hm start rest hp hl => exact hq.trans (List.prefix_append _ _)

end Pairing

/-- Sorting keeps the regions as they were closed. -/
theorem regions_perm (ms : List Marker) :
    (ofMarkers ms).regions.Perm (Pairing.run {} ms).closed :=
  List.mergeSort_perm _ _

theorem mem_regions (ms : List Marker) (r : Region) :
    r ∈ (ofMarkers ms).regions ↔ r ∈ (Pairing.run {} ms).closed :=
  (regions_perm ms).mem_iff

end Outline

end Foldmark

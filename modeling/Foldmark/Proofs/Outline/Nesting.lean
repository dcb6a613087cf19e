import Foldmark.Outline.Reading
import Foldmark.Proofs.Marker.Collection
import Foldmark.Proofs.Outline.Matching

/-!
# Nesting

Two regions of one document lie one inside the other or apart, and the level of a region is the
number of starts around it. Both come from one invariant of the pairing, `Nested`. A region's level
is fixed when it is closed. At that moment it counts the starts below it, of which nobody knows yet
whether they will become regions around it or faults. The invariant says that at every moment the
level is made up of the regions that enclose it so far and of the starts before it that still wait.
A step only moves a start from the second to the first.
-/
namespace Foldmark

open Marker

namespace Region

/-- The first region lies strictly between the lines of the second. -/
def Inside (inner outer : Region) : Prop :=
  outer.startLine < inner.startLine ∧ inner.endLine < outer.endLine

instance (inner outer : Region) : Decidable (inner.Inside outer) :=
  inferInstanceAs (Decidable (_ ∧ _))

end Region

namespace Outline

namespace Pairing

/-- How open starts and closed regions lie to each other before the line `bound` is read. -/
structure Nested (p : Pairing) (bound : Nat) : Prop where
  pending_lt : ∀ a ∈ p.pending, a.line < bound
  closed_lt : ∀ r ∈ p.closed, r.endLine < bound
  stacked : p.pending.Pairwise fun a b => b.line < a.line
  proper : ∀ r ∈ p.closed, r.startLine < r.endLine
  /-- No start waits inside a closed region. -/
  apart : ∀ r ∈ p.closed, ∀ a ∈ p.pending, a.line < r.startLine ∨ r.endLine < a.line
  laminar : p.closed.Pairwise fun a b => a.Inside b ∨ a.endLine < b.startLine
  level_eq : ∀ r ∈ p.closed, r.level =
    1 + p.closed.countP (fun o => r.Inside o) + p.pending.countP (fun a => a.line < r.startLine)

theorem nested_empty : Nested {} 0 := by
  constructor <;> simp

lemma Nested.opens {p : Pairing} {bound : Nat} (h : p.Nested bound) (m : Marker)
    (hb : bound ≤ m.line) :
    Nested { p with pending := m :: p.pending } (m.line + 1) where
  pending_lt := by
    intro a ha
    rcases List.mem_cons.mp ha with rfl | ha
    · omega
    · have := h.pending_lt a ha
      omega
  closed_lt := by
    intro r hr
    have := h.closed_lt r hr
    omega
  stacked := List.pairwise_cons.mpr
    ⟨fun a ha => (h.pending_lt a ha).trans_le hb, h.stacked⟩
  proper := h.proper
  apart := by
    intro r hr a ha
    rcases List.mem_cons.mp ha with rfl | ha
    · exact .inr ((h.closed_lt r hr).trans_le hb)
    · exact h.apart r hr a ha
  laminar := h.laminar
  level_eq := by
    intro r hr
    -- the new start stands behind every region
    have hlt := h.closed_lt r hr
    have hpr := h.proper r hr
    rw [List.countP_cons_of_neg (by simp only [decide_eq_true_eq]; omega)]
    exact h.level_eq r hr

lemma Nested.refuses {p : Pairing} {bound : Nat} (h : p.Nested bound) (m : Marker)
    (hb : bound ≤ m.line) (faults : List Fault) :
    Nested { p with faults := faults } (m.line + 1) where
  pending_lt := fun a ha => (h.pending_lt a ha).trans_le (by omega)
  closed_lt := fun r hr => (h.closed_lt r hr).trans_le (by omega)
  stacked := h.stacked
  proper := h.proper
  apart := h.apart
  laminar := h.laminar
  level_eq := h.level_eq

section closes

variable {p : Pairing} {bound : Nat} {start : Marker} {rest : List Marker}

/-- A closed region either lies inside the region that is closed next or ends before it. -/
lemma Nested.inside_or_before (h : p.Nested bound) (m : Marker) (hb : bound ≤ m.line)
    (hp : p.pending = start :: rest) (r : Region) (hr : r ∈ p.closed) (level : Nat) :
    r.Inside (Region.ofPair start m level) ∨ r.endLine < start.line := by
  rcases h.apart r hr start (by simp [hp]) with hlt | hlt
  · exact .inl ⟨hlt, (h.closed_lt r hr).trans_le hb⟩
  · exact .inr hlt

/-- The start that is closed leaves the stack and comes back as an enclosing region. -/
lemma Nested.level_closes (h : p.Nested bound) (m : Marker) (hb : bound ≤ m.line)
    (hp : p.pending = start :: rest) (r : Region) (hr : r ∈ p.closed) (level : Nat) :
    r.level = 1 + (p.closed ++ [Region.ofPair start m level]).countP (fun o => r.Inside o) +
      rest.countP (fun a => a.line < r.startLine) := by
  have hlevel := h.level_eq r hr
  have hlt := h.closed_lt r hr
  have hiff : r.Inside (Region.ofPair start m level) ↔ start.line < r.startLine :=
    ⟨fun hi => hi.1, fun hs => ⟨hs, hlt.trans_le hb⟩⟩
  rw [hp, List.countP_cons] at hlevel
  rw [List.countP_append, List.countP_singleton]
  simp only [hiff]
  omega

/-- The region that is closed lies in no other one yet, and every start below it waits. -/
lemma Nested.level_new (h : p.Nested bound) (m : Marker) (hb : bound ≤ m.line)
    (hp : p.pending = start :: rest) :
    rest.length + 1 = 1 + (p.closed ++ [Region.ofPair start m (rest.length + 1)]).countP
        (fun o => (Region.ofPair start m (rest.length + 1)).Inside o) +
      rest.countP (fun a => a.line < start.line) := by
  have hz : (p.closed ++ [Region.ofPair start m (rest.length + 1)]).countP
      (fun o => (Region.ofPair start m (rest.length + 1)).Inside o) = 0 := by
    rw [List.countP_eq_zero]
    intro r hr hi
    have hlt : m.line < r.endLine := (of_decide_eq_true hi).2
    rcases List.mem_append.mp hr with hr | hr
    · have := h.closed_lt r hr
      omega
    · rw [List.mem_singleton.mp hr] at hlt
      exact Nat.lt_irrefl _ hlt
  have hs := h.stacked
  rw [hp] at hs
  have hall : rest.countP (fun a => a.line < start.line) = rest.length := by
    rw [List.countP_eq_length]
    intro a ha
    exact decide_eq_true ((List.pairwise_cons.mp hs).1 a ha)
  omega

lemma Nested.closes (h : p.Nested bound) (m : Marker) (hb : bound ≤ m.line)
    (hp : p.pending = start :: rest) (hl : start.line < m.line) (faults : List Fault) :
    Nested
      { pending := rest
        closed := p.closed ++ [Region.ofPair start m (rest.length + 1)]
        faults := faults } (m.line + 1) where
  pending_lt := by
    intro a ha
    have := h.pending_lt a (by simp [hp, ha])
    omega
  closed_lt := by
    intro r hr
    rcases List.mem_append.mp hr with hr | hr
    · have := h.closed_lt r hr
      omega
    · rw [List.mem_singleton.mp hr]
      exact Nat.lt_succ_self m.line
  stacked := by
    have hs := h.stacked
    rw [hp] at hs
    exact (List.pairwise_cons.mp hs).2
  proper := by
    intro r hr
    rcases List.mem_append.mp hr with hr | hr
    · exact h.proper r hr
    · rw [List.mem_singleton.mp hr]
      exact hl
  apart := by
    intro r hr a ha
    rcases List.mem_append.mp hr with hr | hr
    · exact h.apart r hr a (by simp [hp, ha])
    · have hs := h.stacked
      rw [hp] at hs
      rw [List.mem_singleton.mp hr]
      exact .inl ((List.pairwise_cons.mp hs).1 a ha)
  laminar := by
    refine List.pairwise_append.mpr ⟨h.laminar, List.pairwise_singleton _ _, ?_⟩
    intro r hr o ho
    rw [List.mem_singleton.mp ho]
    exact h.inside_or_before m hb hp r hr _
  level_eq := by
    intro r hr
    rcases List.mem_append.mp hr with hr | hr
    · exact h.level_closes m hb hp r hr _
    · rw [List.mem_singleton.mp hr]
      exact h.level_new m hb hp

end closes

lemma Step.nested {p q : Pairing} {m : Marker} {bound : Nat} (h : p.Step m q)
    (hp : p.Nested bound) (hb : bound ≤ m.line) : q.Nested (m.line + 1) := by
  cases h with
  | opens hm => exact hp.opens m hb
  | refuses hm hh fault hf hl => exact hp.refuses m hb _
  | closes hm start rest hh hl => exact hp.closes m hb hh hl _

theorem run_nested (p : Pairing) (bound : Nat) (ms : List Marker) (hp : p.Nested bound)
    (ha : Ascending ms) (hb : ∀ m ∈ ms, bound ≤ m.line) : ∃ last, (p.run ms).Nested last := by
  induction ms generalizing p bound with
  | nil => exact ⟨bound, hp⟩
  | cons m ms ih =>
    obtain ⟨hm, hms⟩ := List.pairwise_cons.mp ha
    exact ih (p.step m) (m.line + 1) ((step_spec p m).nested hp (hb m List.mem_cons_self)) hms hm

theorem nested_of_ascending (ms : List Marker) (h : Ascending ms) :
    ∃ last, (run {} ms).Nested last :=
  run_nested {} 0 ms nested_empty h fun m _ => Nat.zero_le m.line

end Pairing

/-! ## The order of the regions -/

lemma precedes_iff (a b : Region) :
    precedes a b = true ↔
      a.startLine < b.startLine ∨ a.startLine = b.startLine ∧ b.endLine ≤ a.endLine := by
  simp [precedes]

theorem regions_sorted (ms : List Marker) :
    (ofMarkers ms).regions.Pairwise fun a b => precedes a b = true := by
  apply List.pairwise_mergeSort
  · intro a b c hab hbc
    rw [precedes_iff] at *
    omega
  · intro a b
    rw [Bool.or_eq_true, precedes_iff, precedes_iff]
    omega

/-- One region inside the other, or both apart; this does not depend on their order. -/
lemma regions_nested_or_apart (ms : List Marker) (h : Ascending ms) :
    (ofMarkers ms).regions.Pairwise fun a b =>
      (a.Inside b ∨ a.endLine < b.startLine) ∨ (b.Inside a ∨ b.endLine < a.startLine) := by
  obtain ⟨last, hn⟩ := Pairing.nested_of_ascending ms h
  exact ((regions_perm ms).pairwise_iff Or.symm).mpr (hn.laminar.imp Or.inl)

/-- Outer regions come first: of two regions in a row the second starts later, and it lies inside
the first or behind it. -/
theorem regions_preorder (ms : List Marker) (h : Ascending ms) :
    (ofMarkers ms).regions.Pairwise fun a b =>
      a.startLine < b.startLine ∧ (b.endLine < a.endLine ∨ a.endLine < b.startLine) := by
  refine ((regions_sorted ms).and (regions_nested_or_apart ms h)).imp_of_mem ?_
  intro a b ha hb hab
  have hpa := (regions_proper ms a ha).1
  have hpb := (regions_proper ms b hb).1
  obtain ⟨hs, hl⟩ := hab
  rw [precedes_iff] at hs
  simp only [Region.Inside] at hl
  omega

/-- The regions of any comment lines are proper, never overlap in part and come in preorder. -/
theorem ofCommentLines_preorder (settings : Settings) (entries : List CommentLine) :
    (∀ r ∈ (ofCommentLines settings entries).regions, r.startLine < r.endLine) ∧
      (ofCommentLines settings entries).regions.Pairwise fun a b =>
        a.startLine < b.startLine ∧ (b.endLine < a.endLine ∨ a.endLine < b.startLine) := by
  have ha := (Recognizer.ofSettings settings).collect_ascending entries
  refine ⟨?_, regions_preorder _ ha⟩
  intro r hr
  exact (regions_proper _ r hr).1

/-! ## The level of a region -/

/-- The starts that wait at the end, counted through the faults that report them. -/
lemma countP_unclosedStart (ms : List Marker) (line : Nat) :
    (ofMarkers ms).faults.countP (fun f => f.kind = .unclosedStart ∧ f.line < line) =
      (Pairing.run {} ms).pending.countP (fun a => a.line < line) := by
  have h := congrArg (Multiset.countP (· < line)) (linesOf_unclosedStart ms)
  simp only [Fault.linesOf, Multiset.coe_countP, List.countP_map, List.countP_filter] at h
  rw [← Function.comp_def (fun n => decide (n < line)) Marker.line, ← h]
  apply List.countP_congr
  intro f _
  simp [and_comm]

/-- The level of a region is one more than the number of regions around it, and one more still for
every start before it that is never closed. -/
theorem ofMarkers_level (ms : List Marker) (h : Ascending ms) :
    ∀ r ∈ (ofMarkers ms).regions,
      r.level = 1 + (ofMarkers ms).regions.countP
          (fun o => o.startLine < r.startLine ∧ r.endLine < o.endLine) +
        (ofMarkers ms).faults.countP (fun f => f.kind = .unclosedStart ∧ f.line < r.startLine) ∧
      ((∀ f ∈ (ofMarkers ms).faults, f.kind ≠ .unclosedStart) →
        r.level = 1 + (ofMarkers ms).regions.countP
          (fun o => o.startLine < r.startLine ∧ r.endLine < o.endLine)) := by
  intro r hr
  obtain ⟨last, hn⟩ := Pairing.nested_of_ascending ms h
  have hlevel := hn.level_eq r ((mem_regions ms r).mp hr)
  rw [← (regions_perm ms).countP_eq, ← countP_unclosedStart] at hlevel
  refine ⟨hlevel, fun hc => ?_⟩
  have hz : (ofMarkers ms).faults.countP
      (fun f => f.kind = .unclosedStart ∧ f.line < r.startLine) = 0 := by
    rw [List.countP_eq_zero]
    intro f hf hk
    exact hc f hf (of_decide_eq_true hk).1
  rw [hz] at hlevel
  exact hlevel

/-- One region inside another. -/
def nestedMarkers : List Marker :=
  [⟨1, .start, none, false⟩, ⟨2, .start, none, false⟩, ⟨6, .finish, none, false⟩,
    ⟨9, .finish, none, false⟩]

/-- A level that an open start raises, and a level that an enclosing region raises. -/
theorem ofMarkers_level_stray :
    (Ascending strayMarkers ∧ ⟨3, 4, 2, some "x", true⟩ ∈ (ofMarkers strayMarkers).regions ∧
      2 = 1 + (ofMarkers strayMarkers).regions.countP
          (fun o => o.startLine < 3 ∧ 4 < o.endLine) +
        (ofMarkers strayMarkers).faults.countP
          (fun f => f.kind = .unclosedStart ∧ f.line < 3)) ∧
      Ascending nestedMarkers ∧ ⟨2, 6, 2, none, false⟩ ∈ (ofMarkers nestedMarkers).regions ∧
      (∀ f ∈ (ofMarkers nestedMarkers).faults, f.kind ≠ .unclosedStart) ∧
      2 = 1 + (ofMarkers nestedMarkers).regions.countP
        (fun o => o.startLine < 2 ∧ 6 < o.endLine) := by
  have hs : Ascending strayMarkers := by decide
  have hn : Ascending nestedMarkers := by decide
  have hsr : ⟨3, 4, 2, some "x", true⟩ ∈ (ofMarkers strayMarkers).regions :=
    (mem_regions _ _).mpr (by decide)
  have hnr : ⟨2, 6, 2, none, false⟩ ∈ (ofMarkers nestedMarkers).regions :=
    (mem_regions _ _).mpr (by decide)
  have hc : ∀ f ∈ (ofMarkers nestedMarkers).faults, f.kind ≠ .unclosedStart := by decide
  exact ⟨⟨hs, hsr, (ofMarkers_level strayMarkers hs _ hsr).1⟩, hn, hnr, hc,
    (ofMarkers_level nestedMarkers hn _ hnr).2 hc⟩

end Outline

end Foldmark

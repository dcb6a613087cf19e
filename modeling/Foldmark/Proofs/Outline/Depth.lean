import Foldmark.Proofs.Outline.Nesting
import Mathlib.Data.List.Pairwise
import Mathlib.Data.List.Permutation

/-!
# Depth of a line

What an outline says about a single line. `WellNested` collects what is known of the outline of any
document, and the rest of the theory of folds needs nothing else of the pairing. The regions around
a line lie one inside the other, so one of them is the innermost. The depth of a line counts the
regions around it and the starts before it that are never closed. The level of a region is the
depth of its first line, and of every other line that it is the innermost region around.
-/
namespace Foldmark

open Marker

namespace Region

lemma covers_iff (r : Region) (line : Nat) :
    r.covers line = true ↔ r.startLine ≤ line ∧ line ≤ r.endLine := by
  simp [covers]

lemma contains_iff (outer inner : Region) :
    outer.contains inner = true ↔
      outer.startLine ≤ inner.startLine ∧ inner.endLine ≤ outer.endLine := by
  simp [contains]

/-- The same region, one inside the other, or both apart. -/
def Laminar (a b : Region) : Prop :=
  a = b ∨ a.Inside b ∨ b.Inside a ∨ a.endLine < b.startLine ∨ b.endLine < a.startLine

instance : Std.Symm Laminar where
  symm a b hab := by
    rcases hab with heq | hi | hi | hl | hl
    · exact .inl heq.symm
    · exact .inr (.inr (.inl hi))
    · exact .inr (.inl hi)
    · exact .inr (.inr (.inr (.inr hl)))
    · exact .inr (.inr (.inr (.inl hl)))

end Region

namespace Outline

/-- The number of starts before a line that are never closed. -/
def openBefore (o : Outline) (line : Nat) : Nat :=
  o.faults.countP fun f => f.kind = .unclosedStart ∧ f.line < line

/-- How deep a line lies. A start that is never closed counts for every line behind it. -/
def depth (o : Outline) (line : Nat) : Nat :=
  o.regions.countP (·.covers line) + o.openBefore line

lemma openBefore_mono (o : Outline) {first last : Nat} (h : first ≤ last) :
    o.openBefore first ≤ o.openBefore last := by
  apply List.countP_mono_left
  intro f _ hf
  simp only [decide_eq_true_eq] at hf ⊢
  exact ⟨hf.1, hf.2.trans_le h⟩

/-- What holds of the outline of every document. -/
structure WellNested (o : Outline) : Prop where
  ordered : o.regions.Pairwise fun a b => a.startLine < b.startLine
  proper : ∀ r ∈ o.regions, r.startLine < r.endLine
  laminar : ∀ a ∈ o.regions, ∀ b ∈ o.regions, a.Laminar b
  /-- No start inside a region is left open. -/
  apart : ∀ r ∈ o.regions, ∀ f ∈ o.faults, f.kind = .unclosedStart →
    f.line < r.startLine ∨ r.endLine < f.line
  level_eq : ∀ r ∈ o.regions,
    r.level = 1 + o.regions.countP (fun q => r.Inside q) + o.openBefore r.startLine

lemma exists_pending_of_mem_faults (ms : List Marker) (f : Fault)
    (hf : f ∈ (ofMarkers ms).faults) (hk : f.kind = .unclosedStart) :
    ∃ a ∈ (Pairing.run {} ms).pending, a.line = f.line := by
  have hm : f.line ∈ Fault.linesOf .unclosedStart (ofMarkers ms).faults :=
    Multiset.mem_coe.mpr (List.mem_map.mpr ⟨f, List.mem_filter.mpr ⟨hf, by simp [hk]⟩, rfl⟩)
  rw [linesOf_unclosedStart] at hm
  exact List.mem_map.mp (Multiset.mem_coe.mp hm)

theorem ofMarkers_wellNested (ms : List Marker) (h : Ascending ms) :
    (ofMarkers ms).WellNested := by
  obtain ⟨last, hn⟩ := Pairing.nested_of_ascending ms h
  have hlaminar : (ofMarkers ms).regions.Pairwise Region.Laminar := by
    refine (regions_nested_or_apart ms h).imp fun hab => ?_
    rcases hab with (hi | hl) | (hi | hl)
    · exact .inr (.inl hi)
    · exact .inr (.inr (.inr (.inl hl)))
    · exact .inr (.inr (.inl hi))
    · exact .inr (.inr (.inr (.inr hl)))
  refine
    { ordered := (regions_preorder ms h).imp And.left
      proper := fun r hr => (regions_proper ms r hr).1
      laminar := fun a ha b hb => hlaminar.forall_of_forall (fun r _ => .inl rfl) ha hb
      apart := ?_
      level_eq := ?_ }
  · intro r hr f hf hk
    obtain ⟨a, ha, hl⟩ := exists_pending_of_mem_faults ms f hf hk
    rw [← hl]
    exact hn.apart r ((mem_regions ms r).mp hr) a ha
  · intro r hr
    rw [openBefore, countP_unclosedStart, (regions_perm ms).countP_eq]
    exact hn.level_eq r ((mem_regions ms r).mp hr)

theorem ofCommentLines_wellNested (settings : Settings) (entries : List CommentLine) :
    (ofCommentLines settings entries).WellNested :=
  ofMarkers_wellNested _ ((Recognizer.ofSettings settings).collect_ascending entries)

namespace WellNested

variable {o : Outline} {a b r : Region} {line : Nat}

theorem nodup (h : o.WellNested) : o.regions.Nodup := by
  apply h.ordered.imp
  intro a b hab heq
  exact Nat.ne_of_lt hab (congrArg Region.startLine heq)

lemma eq_of_startLine_eq (h : o.WellNested) (ha : a ∈ o.regions) (hb : b ∈ o.regions)
    (hs : a.startLine = b.startLine) : a = b := by
  have hpa := h.proper a ha
  have hpb := h.proper b hb
  rcases h.laminar a ha b hb with heq | hi | hi | hl | hl
  · exact heq
  · exact absurd hi.1 (by omega)
  · exact absurd hi.1 (by omega)
  · omega
  · omega

/-! ## The regions around a line -/

/-- Two regions around one line lie one inside the other. -/
lemma inside_or_inside (h : o.WellNested) (ha : a ∈ o.regions) (hb : b ∈ o.regions)
    (hca : a.covers line) (hcb : b.covers line) : a = b ∨ a.Inside b ∨ b.Inside a := by
  rw [Region.covers_iff] at hca hcb
  rcases h.laminar a ha b hb with heq | hi | hi | hl | hl
  · exact .inl heq
  · exact .inr (.inl hi)
  · exact .inr (.inr hi)
  · omega
  · omega

/-- The regions around the first line of a region are the region itself and those that enclose
it. -/
lemma covers_startLine_iff (h : o.WellNested) (ha : a ∈ o.regions) (hr : r ∈ o.regions) :
    a.covers r.startLine ↔ a = r ∨ r.Inside a := by
  have hpr := h.proper r hr
  constructor
  · intro hc
    have hcr : r.covers r.startLine = true := (r.covers_iff _).mpr ⟨le_rfl, hpr.le⟩
    rcases h.inside_or_inside ha hr hc hcr with heq | hi | hi
    · exact .inl heq
    · exact absurd hi.1 (((a.covers_iff _).mp hc).1.not_gt)
    · exact .inr hi
  · rw [Region.covers_iff]
    rintro (rfl | hi)
    · exact ⟨le_rfl, hpr.le⟩
    · exact ⟨hi.1.le, hpr.le.trans hi.2.le⟩

/-- A region around the first line of another is a region around all its lines. -/
lemma covers_of_covers_startLine (h : o.WellNested) (ha : a ∈ o.regions) (hr : r ∈ o.regions)
    (hc : a.covers r.startLine) (hl : r.covers line) : a.covers line := by
  rcases (h.covers_startLine_iff ha hr).mp hc with rfl | hi
  · exact hl
  · rw [Region.covers_iff] at hl ⊢
    exact ⟨hi.1.le.trans hl.1, hl.2.trans hi.2.le⟩

/-- No start within a region stays open, so none is counted anew from its first line to the line
behind it. -/
lemma openBefore_eq (h : o.WellNested) (hr : r ∈ o.regions) (line : Nat)
    (hs : r.startLine ≤ line) (he : line ≤ r.endLine + 1) :
    o.openBefore line = o.openBefore r.startLine := by
  apply List.countP_congr
  intro f hf
  simp only [decide_eq_true_eq]
  refine and_congr_right fun hk => ?_
  have := h.apart r hr f hf hk
  omega

/-! ## Levels -/

/-- The level of a region is the depth of its first line. -/
theorem level_eq_depth (h : o.WellNested) (hr : r ∈ o.regions) :
    r.level = o.depth r.startLine := by
  have herase := List.perm_cons_erase hr
  have hself : r.covers r.startLine = true := (h.covers_startLine_iff hr hr).mpr (.inl rfl)
  -- away from `r` itself, to cover the line is to enclose `r`
  have hothers : (o.regions.erase r).countP (·.covers r.startLine) =
      (o.regions.erase r).countP (fun q => r.Inside q) := by
    apply List.countP_congr
    intro q hq
    obtain ⟨hne, hq⟩ := (List.Nodup.mem_erase_iff h.nodup).mp hq
    rw [h.covers_startLine_iff hq hr, decide_eq_true_eq]
    exact or_iff_right hne
  have hlevel := h.level_eq r hr
  rw [herase.countP_eq, List.countP_cons_of_neg (by simp [Region.Inside])] at hlevel
  rw [depth, herase.countP_eq, List.countP_cons_of_pos (by exact hself), hothers]
  omega

/-- Levels grow strictly from the outside to the inside. -/
theorem level_lt_of_inside (h : o.WellNested) (ha : a ∈ o.regions) (hb : b ∈ o.regions)
    (hi : a.Inside b) : b.level < a.level := by
  have hmono : o.openBefore b.startLine ≤ o.openBefore a.startLine := o.openBefore_mono hi.1.le
  have herase := List.perm_cons_erase hb
  have hle : (o.regions.erase b).countP (fun q => b.Inside q) ≤
      (o.regions.erase b).countP (fun q => a.Inside q) := by
    apply List.countP_mono_left
    intro q _ hq
    have hq := of_decide_eq_true hq
    exact decide_eq_true ⟨hq.1.trans hi.1, hi.2.trans hq.2⟩
  have hla := h.level_eq a ha
  have hlb := h.level_eq b hb
  rw [herase.countP_eq, List.countP_cons_of_pos (by exact decide_eq_true hi)] at hla
  rw [herase.countP_eq, List.countP_cons_of_neg (by simp [Region.Inside])] at hlb
  omega

theorem level_pos (h : o.WellNested) (hr : r ∈ o.regions) : 1 ≤ r.level := by
  have := h.level_eq r hr
  omega

end WellNested

/-! ## The innermost region -/

lemma deepest?_eq_none_iff (rs : List Region) : deepest? rs = none ↔ rs = [] := by
  cases rs with
  | nil => simp [deepest?]
  | cons r rs =>
    simp only [deepest?]
    split
    · simp
    · split_ifs <;> simp

/-- What is found is one of the regions, and none of them is deeper. -/
lemma deepest?_spec {rs : List Region} {r : Region} (h : deepest? rs = some r) :
    r ∈ rs ∧ ∀ q ∈ rs, q.level ≤ r.level := by
  induction rs generalizing r with
  | nil => cases h
  | cons first rest ih =>
    cases hd : deepest? rest with
    | none =>
      have hrest : rest = [] := (deepest?_eq_none_iff rest).mp hd
      simp only [deepest?, hd, Option.some.injEq] at h
      simp [hrest, h]
    | some other =>
      obtain ⟨hmem, hmax⟩ := ih hd
      simp only [deepest?, hd] at h
      split_ifs at h with hl
      · obtain rfl := Option.some.inj h
        exact ⟨List.mem_cons_of_mem first hmem, List.forall_mem_cons.mpr ⟨hl, hmax⟩⟩
      · obtain rfl := Option.some.inj h
        refine ⟨List.mem_cons_self, List.forall_mem_cons.mpr ⟨le_rfl, fun q hq => ?_⟩⟩
        have := hmax q hq
        omega

theorem innermostAt_eq_none_iff (o : Outline) (line : Nat) :
    o.innermostAt line = none ↔ ∀ r ∈ o.regions, r.covers line = false := by
  rw [innermostAt, deepest?_eq_none_iff, List.filter_eq_nil_iff]
  simp

lemma exists_innermostAt {o : Outline} {line : Nat} {r : Region} (hr : r ∈ o.regions)
    (hc : r.covers line) : ∃ inner, o.innermostAt line = some inner := by
  rw [← Option.ne_none_iff_exists', ne_eq, innermostAt_eq_none_iff]
  intro hnone
  rw [hnone r hr] at hc
  cases hc

lemma mem_of_innermostAt {o : Outline} {line : Nat} {r : Region}
    (h : o.innermostAt line = some r) : r ∈ o.regions ∧ r.covers line = true :=
  List.mem_filter.mp (deepest?_spec h).1

/-- No region around the line is deeper than the innermost one. -/
lemma level_le_of_innermostAt {o : Outline} {line : Nat} {r : Region}
    (h : o.innermostAt line = some r) (q : Region) (hq : q ∈ o.regions) (hc : q.covers line) :
    q.level ≤ r.level :=
  (deepest?_spec h).2 q (List.mem_filter.mpr ⟨hq, hc⟩)

namespace WellNested

variable {o : Outline} {r : Region} {line : Nat}

/-- The innermost region around a line lies in every region around it. -/
theorem innermostAt_inside (h : o.WellNested) (hr : o.innermostAt line = some r) (q : Region)
    (hq : q ∈ o.regions) (hc : q.covers line) : r = q ∨ r.Inside q := by
  obtain ⟨hmem, hcov⟩ := mem_of_innermostAt hr
  have hle := level_le_of_innermostAt hr q hq hc
  rcases h.inside_or_inside hmem hq hcov hc with heq | hi | hi
  · exact .inl heq
  · exact .inr hi
  · -- a region inside `r` would be deeper
    exact absurd (h.level_lt_of_inside hq hmem hi) hle.not_gt

/-- The innermost region around a line has the line's depth for its level. -/
theorem level_innermostAt (h : o.WellNested) (hr : o.innermostAt line = some r) :
    r.level = o.depth line := by
  obtain ⟨hmem, hcov⟩ := mem_of_innermostAt hr
  have hbounds := (r.covers_iff line).mp hcov
  have hcount : o.regions.countP (·.covers r.startLine) = o.regions.countP (·.covers line) := by
    apply List.countP_congr
    intro q hq
    refine ⟨fun hs => h.covers_of_covers_startLine hq hmem hs hcov, fun hl => ?_⟩
    exact (h.covers_startLine_iff hq hmem).mpr ((h.innermostAt_inside hr q hq hl).imp_left Eq.symm)
  have hopen := h.openBefore_eq hmem line hbounds.1 (by omega)
  rw [h.level_eq_depth hmem, depth, depth, hcount, hopen]

end WellNested

/-- Two nested regions behind a start that is never closed. -/
def raisedEntries : List CommentLine :=
  [⟨2, "# region open"⟩, ⟨4, "# region a"⟩, ⟨6, "# region b"⟩, ⟨8, "# endregion"⟩,
    ⟨9, "# endregion a"⟩]

lemma ofCommentLines_raisedEntries : ofCommentLines { caseSensitive := true } raisedEntries =
    ⟨[⟨4, 9, 2, some "a", false⟩, ⟨6, 8, 3, some "b", false⟩],
      [Fault.neverClosed ⟨2, .start, some "open", false⟩]⟩ := by
  cbv

end Outline

end Foldmark

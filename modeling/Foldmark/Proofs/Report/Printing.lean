import Foldmark.Proofs.Gutter.Rows
import Foldmark.Proofs.Outline.Faults
import Foldmark.Report.Format

/-!
# Printing of outlines

Labels, listings and views take differences of lines and of levels, which need not fit a counter for
an outline of any origin, and they repeat a text as often as the level says. For an outline of markers
all this succeeds, in whatever order the markers came: a region ends behind its start, its level is at
least one and at most the number of markers, and its lines are lines of markers. Lines count from one,
and this is needed: from line zero to the last line of a counter there is one line too many.
-/
namespace Foldmark

/-- The number of lines of a region within the range of a counter fits it too, unless the region takes
up the whole range. -/
lemma Region.lineCount_eq_ok_of_proper {r : Region} (hp : r.startLine < r.endLine)
    (hl : r.endLine < Count.limit) :
    r.lineCount = .ok (r.endLine - r.startLine + 1) ↔
      r.startLine ≠ 0 ∨ r.endLine + 1 ≠ Count.limit := by
  rw [lineCount_eq_ok_iff]
  omega

example : (⟨0, Count.limit - 1, 1, none, false⟩ : Region).lineCount = .error .add := by rfl

namespace Report

lemma exists_regionItem {r : Region} (h : 1 ≤ r.level) (hfits : 2 * r.level ≤ Count.capacity)
    (number : Nat) : ∃ item, regionItem number r = .ok item := by
  have hdepth : Count.subtract r.level 1 = .ok (r.level - 1) :=
    Count.subtract_eq_ok_iff.mpr ⟨rfl, h⟩
  have hsize : "  ".utf8ByteSize = 2 := by decide
  have hindent : Count.repeated "  " (r.level - 1) = .ok _ :=
    Count.repeated_eq_ok_iff.mpr ⟨rfl, by rw [hsize]; omega⟩
  rw [regionItem]
  exact ⟨_, Count.bind_eq_ok_iff.mpr ⟨_, hdepth, Count.bind_eq_ok_iff.mpr ⟨_, hindent, rfl⟩⟩⟩

/-- A listing needs levels from one on whose indents fit a text, and nothing else. -/
lemma exists_listing (file : SourceFile)
    (h : ∀ r ∈ file.outline.regions, 1 ≤ r.level ∧ 2 * r.level ≤ Count.capacity) :
    ∃ pieces, listing file = .ok pieces := by
  have hitem : ∀ entry ∈ file.outline.regions.zipIdx,
      ∃ item, regionItem (entry.2 + 1) entry.1 = .ok item := by
    intro entry he
    obtain ⟨hlevel, hfits⟩ := h entry.1 (List.fst_mem_of_mem_zipIdx he)
    exact exists_regionItem hlevel hfits _
  choose! item hitem using hitem
  rw [listing, Count.mapM_eq_ok _ hitem]
  exact ⟨_, rfl⟩

end Report

namespace Outline

/-- The lines of a region are lines of markers. -/
lemma regions_bounded (ms : List Marker) (h : ∀ m ∈ ms, 1 ≤ m.line ∧ m.line < Count.limit) :
    ∀ r ∈ (ofMarkers ms).regions, 1 ≤ r.startLine ∧ r.endLine < Count.limit := by
  intro r hr
  obtain ⟨start, hstart, finish, hfinish, hs, hf⟩ := exists_markers_of_mem_regions ms r hr
  exact ⟨hs ▸ (h start hstart).1, hf ▸ (h finish hfinish).2⟩

lemma regions_lineCount (ms : List Marker) (h : ∀ m ∈ ms, 1 ≤ m.line ∧ m.line < Count.limit) :
    ∀ r ∈ (ofMarkers ms).regions, r.lineCount = .ok (r.endLine - r.startLine + 1) := by
  intro r hr
  obtain ⟨hfirst, hlast⟩ := regions_bounded ms h r hr
  have hproper := (regions_proper ms r hr).1
  exact (Region.lineCount_eq_ok_of_proper hproper hlast).mpr (.inl (by omega))

/-- A level counts open starts, so it is at most the number of markers. -/
lemma level_le_length (ms : List Marker) : ∀ r ∈ (ofMarkers ms).regions, r.level ≤ ms.length := by
  have hrun := Pairing.run_induction (fun done p =>
    p.pending.length ≤ done.length ∧ ∀ r ∈ p.closed, r.level ≤ done.length) ⟨Nat.le_refl 0, nofun⟩
    ?_ ms
  · exact fun r hr => hrun.2 r ((mem_regions ms r).mp hr)
  intro done m q ⟨hpending, hclosed⟩ hstep
  have hlater : ∀ r ∈ (Pairing.run {} done).closed, r.level ≤ (done ++ [m]).length := fun r hr => by
    rw [List.length_append]
    exact Nat.le_add_right_of_le (hclosed r hr)
  rw [List.length_append, List.length_singleton] at hlater ⊢
  cases hstep with
  | opens hm => exact ⟨Nat.succ_le_succ hpending, hlater⟩
  | refuses hm hp fault hf hl => exact ⟨Nat.le_succ_of_le hpending, hlater⟩
  | closes hm start rest hp hl =>
    rw [hp, List.length_cons] at hpending
    refine ⟨Nat.le_add_right_of_le (Nat.le_of_succ_le hpending), fun r hr => ?_⟩
    rcases List.mem_append.mp hr with hr | hr
    · exact hlater r hr
    · rw [List.mem_singleton.mp hr, Region.ofPair_level]
      omega

/-- The level of a line is zero or that of a region. -/
lemma level_directive_le {o : Outline} {bound : Nat} (h : ∀ r ∈ o.regions, r.level ≤ bound)
    (line : Nat) : (o.directive line).level ≤ bound := by
  have hmax : ∀ (p : Region → Bool) (level : Nat),
      ((o.regions.filter p).map Region.level).max? = some level → level ≤ bound := by
    intro p level hlevel
    obtain ⟨r, hr, rfl⟩ := List.mem_map.mp (List.max?_eq_some_iff.mp hlevel).1
    exact h r (List.mem_filter.mp hr).1
  simp only [directive]
  split
  next level hlevel => exact hmax _ level hlevel
  next =>
    split
    next level hlevel => exact hmax _ level hlevel
    next => exact Nat.zero_le _

lemma levelsFit_ofMarkers {ms : List Marker} (h : 3 * ms.length ≤ Count.capacity) (total : Nat) :
    (ofMarkers ms).LevelsFit total := by
  intro directive hdirective
  obtain ⟨i, -, rfl⟩ := List.mem_map.mp hdirective
  have hlevel := level_directive_le (level_le_length ms) (i + 1)
  omega

/-- Everything that shows the outline of markers on lines from one on succeeds: the line counts, levels
and labels of its regions, the listings of a file with this outline, and the views of any source
beside it. The markers are not more than a memory can hold, where a marker takes at least three
octets. -/
theorem ofMarkers_printable (ms : List Marker)
    (h : ∀ m ∈ ms, 1 ≤ m.line ∧ m.line < Count.limit) :
    (∀ r ∈ (ofMarkers ms).regions,
      (∃ count, r.lineCount = .ok count ∧ 2 ≤ count) ∧
      Count.subtract r.level 1 = .ok (r.level - 1) ∧
      r.label = .ok r.caption) ∧
    (3 * ms.length ≤ Count.capacity →
      (∀ file : SourceFile, file.outline = ofMarkers ms →
        ∀ format : Report.Format, format = .summary ∨ format = .ansi →
          ∃ text, Report.file format file = .ok text) ∧
      ∀ labels colour source,
        ∃ text, Gutter.render labels colour source (ofMarkers ms) = .ok text) := by
  have hcount := regions_lineCount ms h
  have hexists : ∀ r ∈ (ofMarkers ms).regions, ∃ count, r.lineCount = .ok count :=
    fun r hr => ⟨_, hcount r hr⟩
  refine ⟨?_, fun hmemory => ⟨?_, ?_⟩⟩
  · intro r hr
    obtain ⟨hproper, hlevel⟩ := regions_proper ms r hr
    exact ⟨⟨_, hcount r hr, by omega⟩, Count.subtract_eq_ok_iff.mpr ⟨rfl, hlevel⟩,
      Region.label_eq_ok (hexists r hr)⟩
  · intro file hfile format hformat
    have hlevels : ∀ r ∈ file.outline.regions, 1 ≤ r.level ∧ 2 * r.level ≤ Count.capacity := by
      intro r hr
      rw [hfile] at hr
      have hlevel := level_le_length ms r hr
      exact ⟨(regions_proper ms r hr).2, by omega⟩
    obtain ⟨pieces, hpieces⟩ := Report.exists_listing file hlevels
    rcases hformat with rfl | rfl <;> exact ⟨_, by rw [Report.file, hpieces]; rfl⟩
  · intro labels colour source
    rw [Gutter.render_eq hexists]
    exact ⟨_, if_pos (levelsFit_ofMarkers hmemory _)⟩

/-- Markers that come in no order, some of them on the first and on the last line. -/
def scatteredMarkers : List Marker :=
  [⟨7, .start, none, false⟩, ⟨1, .start, some "a", true⟩, ⟨1, .finish, none, false⟩,
    ⟨Count.limit - 1, .finish, some "b", false⟩, ⟨3, .finish, none, false⟩]

theorem ofMarkers_printable_scattered :
    (∀ m ∈ scatteredMarkers, 1 ≤ m.line ∧ m.line < Count.limit) ∧
      3 * scatteredMarkers.length ≤ Count.capacity ∧
      ∀ labels colour source, ∃ text,
        Gutter.render labels colour source (ofMarkers scatteredMarkers) = .ok text := by
  have h : ∀ m ∈ scatteredMarkers, 1 ≤ m.line ∧ m.line < Count.limit := by decide
  have hmemory : 3 * scatteredMarkers.length ≤ Count.capacity := by decide
  exact ⟨h, hmemory, ((ofMarkers_printable scatteredMarkers h).2 hmemory).2⟩

end Outline

end Foldmark

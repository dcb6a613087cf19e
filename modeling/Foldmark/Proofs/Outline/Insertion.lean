import Foldmark.Proofs.Outline.Faults
import Mathlib.Data.List.Permutation

/-!
# Insertion of a block

A block of markers that leaves no start open and no end without a start may be put anywhere among other
markers. Its regions are added, as much deeper as starts are open at its place, and so are the wrong names
in it. Nothing else changes, however broken the markers around the block are. Two facts about runs carry
this. The block goes on above the starts that are open before it and leaves them there (`run_block`), and
what a later run adds depends on the open starts alone (`run_adds`).
-/
namespace Foldmark

open Marker

namespace Outline

/-- The faults of one kind, in the order in which they are reported. -/
def faultsOf (outline : Outline) (kind : FaultKind) : List Fault :=
  outline.faults.filter fun fault => fault.kind = kind

namespace Pairing

/-- What a run adds to a pairing depends on its open starts only. -/
theorem run_adds (p : Pairing) (ms : List Marker) :
    p.run ms =
      { pending := (run { pending := p.pending } ms).pending
        closed := p.closed ++ (run { pending := p.pending } ms).closed
        faults := p.faults ++ (run { pending := p.pending } ms).faults } := by
  have hp : above { pending := p.pending } { p with pending := [] } = p := by simp [above]
  have h := run_above { pending := p.pending } { p with pending := [] } ms fun _ _ _ _ _ => rfl
  rw [hp] at h
  rw [h]
  simp [above]

section block

variable {block : List Marker}
  (hb : ∀ f ∈ (ofMarkers block).faults, f.kind ≠ .unmatchedEnd ∧ f.kind ≠ .unclosedStart)

include hb

/-- Every end of the block finds a start of the block open, for it would be reported otherwise. -/
lemma pending_ne_nil_of_end (before : List Marker) (m : Marker) (hm : before ++ [m] <+: block)
    (hk : m.kind = .finish) : (run {} before).pending ≠ [] := by
  intro hnil
  obtain ⟨rest, rfl⟩ := hm
  have hmem : Fault.noStart m.line ∈ (run {} (before ++ [m] ++ rest)).faults := by
    rw [run_append, run_concat, step_of_nil _ m hk hnil]
    exact (faults_prefix_run _ rest).mem (by simp)
  exact (hb _ (List.mem_append_left _ hmem)).1 rfl

/-- The block closes all that it opens and nothing else. -/
theorem run_block (p : Pairing) :
    p.run block =
      { pending := p.pending
        closed := p.closed ++ (run {} block).closed.map fun r =>
          { r with level := r.level + p.pending.length }
        faults := p.faults ++ (run {} block).faults } := by
  have hnil := pending_eq_nil_of_faults block fun f hf => (hb f hf).2
  have h := run_above {} p block fun before m hm hk he =>
    absurd he (pending_ne_nil_of_end hb before m hm hk)
  rw [empty_above] at h
  rw [h, above, hnil, List.nil_append]

/-- The markers behind the block add the same as without it. -/
theorem exists_run_insert (before after : List Marker) :
    ∃ later : Pairing,
      run {} (before ++ after) =
        { pending := later.pending
          closed := (run {} before).closed ++ later.closed
          faults := (run {} before).faults ++ later.faults } ∧
      run {} (before ++ block ++ after) =
        { pending := later.pending
          closed := (run {} before).closed ++ ((run {} block).closed.map fun r =>
            { r with level := r.level + (run {} before).pending.length }) ++ later.closed
          faults := (run {} before).faults ++ (run {} block).faults ++ later.faults } := by
  refine ⟨run { pending := (run {} before).pending } after, ?_, ?_⟩
  · rw [run_append, run_adds]
  · rw [run_append, run_append, run_block hb, run_adds]

end block

end Pairing

section block

variable {block : List Marker}
  (hb : ∀ f ∈ (ofMarkers block).faults, f.kind ≠ .unmatchedEnd ∧ f.kind ≠ .unclosedStart)

include hb

lemma regions_insert_perm (before after : List Marker) :
    (ofMarkers (before ++ block ++ after)).regions.Perm
      ((ofMarkers (before ++ after)).regions ++ (ofMarkers block).regions.map fun r =>
        { r with level := r.level + (ofMarkers before).faultCount .unclosedStart }) := by
  obtain ⟨later, hwithout, hwith⟩ := Pairing.exists_run_insert hb before after
  have hclosed : (Pairing.run {} (before ++ block ++ after)).closed.Perm
      ((Pairing.run {} (before ++ after)).closed ++ (Pairing.run {} block).closed.map fun r =>
        { r with level := r.level + (Pairing.run {} before).pending.length }) := by
    rw [hwithout, hwith]
    simp only [List.append_assoc]
    exact List.perm_append_comm.append_left _
  rw [faultCount_unclosedStart]
  exact ((regions_perm _).trans hclosed).trans
    ((regions_perm _).symm.append ((regions_perm block).symm.map _))

/-- The faults of the block are reported among the others, all at one place. -/
lemma exists_faults_insert (before after : List Marker) :
    ∃ earlier later, (ofMarkers (before ++ after)).faults = earlier ++ later ∧
      (ofMarkers (before ++ block ++ after)).faults =
        earlier ++ (ofMarkers block).faults ++ later := by
  obtain ⟨later, hwithout, hwith⟩ := Pairing.exists_run_insert hb before after
  have hnil := pending_eq_nil_of_faults block fun f hf => (hb f hf).2
  refine ⟨(Pairing.run {} before).faults,
    later.faults ++ later.pending.reverse.map Fault.neverClosed, ?_, ?_⟩
  · rw [ofMarkers, hwithout, List.append_assoc]
  · rw [ofMarkers, ofMarkers, hwith, hnil]
    simp

lemma faultsOf_insert (before after : List Marker) (kind : FaultKind)
    (hk : (ofMarkers block).faultsOf kind = []) :
    (ofMarkers (before ++ block ++ after)).faultsOf kind =
      (ofMarkers (before ++ after)).faultsOf kind := by
  obtain ⟨earlier, later, hwithout, hwith⟩ := exists_faults_insert hb before after
  rw [faultsOf] at hk
  rw [faultsOf, faultsOf, hwithout, hwith, List.filter_append, List.filter_append, hk,
    List.append_nil, List.filter_append]

lemma faultsOf_insert_perm (before after : List Marker) (kind : FaultKind) :
    ((ofMarkers (before ++ block ++ after)).faultsOf kind).Perm
      ((ofMarkers (before ++ after)).faultsOf kind ++ (ofMarkers block).faultsOf kind) := by
  obtain ⟨earlier, later, hwithout, hwith⟩ := exists_faults_insert hb before after
  rw [faultsOf, faultsOf, faultsOf, ← List.filter_append, hwithout, hwith, List.append_assoc,
    List.append_assoc]
  exact (List.perm_append_comm.append_left _).filter _

end block

/-- Wrong names are reported in the order of their lines. -/
lemma mismatchedName_ascending (ms : List Marker) (h : Ascending ms) :
    ((ofMarkers ms).faultsOf .mismatchedName).Pairwise fun a b => a.line < b.line := by
  have hstarts : ((Pairing.run {} ms).pending.reverse.map Fault.neverClosed).filter
      (fun f => f.kind = .mismatchedName) = [] := by
    rw [List.filter_eq_nil_iff]
    intro f hf
    simp [Fault.kind_of_mem_neverClosed _ f hf]
  rw [faultsOf, ofMarkers, List.filter_append, hstarts, List.append_nil]
  exact (Pairing.run_faults_ascending ms h).1.filter _

/-- A block that leaves no start open and no end without a start is inserted into other markers. Its
regions come among the others in the order of their lines, deeper by the number of starts that the
markers before it leave open. The wrong names are those of both, and all other faults are as they were
without the block. -/
theorem ofMarkers_insert (before block after : List Marker)
    (h : Ascending (before ++ block ++ after))
    (hb : ∀ f ∈ (ofMarkers block).faults, f.kind ≠ .unmatchedEnd ∧ f.kind ≠ .unclosedStart) :
    (ofMarkers (before ++ block ++ after)).regions.Perm
        ((ofMarkers (before ++ after)).regions ++ (ofMarkers block).regions.map fun r =>
          { r with level := r.level + (ofMarkers before).faultCount .unclosedStart }) ∧
      (ofMarkers (before ++ block ++ after)).regions.Pairwise
        (fun a b => a.startLine < b.startLine) ∧
      (ofMarkers (before ++ block ++ after)).faultsOf .unmatchedEnd =
        (ofMarkers (before ++ after)).faultsOf .unmatchedEnd ∧
      (ofMarkers (before ++ block ++ after)).faultsOf .unclosedStart =
        (ofMarkers (before ++ after)).faultsOf .unclosedStart ∧
      ((ofMarkers (before ++ block ++ after)).faultsOf .mismatchedName).Perm
        ((ofMarkers (before ++ after)).faultsOf .mismatchedName ++
          (ofMarkers block).faultsOf .mismatchedName) ∧
      ((ofMarkers (before ++ block ++ after)).faultsOf .mismatchedName).Pairwise
        (fun a b => a.line < b.line) := by
  refine ⟨regions_insert_perm hb before after, (regions_preorder _ h).imp And.left, ?_, ?_,
    faultsOf_insert_perm hb before after .mismatchedName, mismatchedName_ascending _ h⟩
  · refine faultsOf_insert hb before after .unmatchedEnd (List.filter_eq_nil_iff.mpr ?_)
    intro f hf
    simpa using (hb f hf).1
  · refine faultsOf_insert hb before after .unclosedStart (List.filter_eq_nil_iff.mpr ?_)
    intro f hf
    simpa using (hb f hf).2

/-- An end without a start, and a start that stays open. -/
def openFront : List Marker :=
  [⟨1, .finish, none, false⟩, ⟨2, .start, some "outer", false⟩]

/-- Two nested regions, one of them with a wrong name at its end. -/
def misnamedBlock : List Marker :=
  [⟨3, .start, some "x", true⟩, ⟨4, .start, none, false⟩, ⟨5, .finish, none, false⟩,
    ⟨6, .finish, some "y", false⟩]

/-- An end under another name than that of the open start, and a start that is never closed. -/
def misnamedBack : List Marker :=
  [⟨7, .finish, some "other", false⟩, ⟨9, .start, none, false⟩]

theorem ofMarkers_insert_misnamed :
    Ascending (openFront ++ misnamedBlock ++ misnamedBack) ∧
      (∀ f ∈ (ofMarkers misnamedBlock).faults,
        f.kind ≠ .unmatchedEnd ∧ f.kind ≠ .unclosedStart) ∧
      (ofMarkers (openFront ++ misnamedBlock ++ misnamedBack)).regions.Perm
        [⟨2, 7, 1, some "outer", false⟩, ⟨3, 6, 2, some "x", true⟩, ⟨4, 5, 3, none, false⟩] ∧
      ((ofMarkers (openFront ++ misnamedBlock ++ misnamedBack)).faultsOf .mismatchedName).Perm
        [Fault.otherName 7 "other" "outer" 2, Fault.otherName 6 "y" "x" 3] := by
  have ha : Ascending (openFront ++ misnamedBlock ++ misnamedBack) := by decide
  have hb : ∀ f ∈ (ofMarkers misnamedBlock).faults,
      f.kind ≠ .unmatchedEnd ∧ f.kind ≠ .unclosedStart := by decide
  have hcount : (ofMarkers openFront).faultCount .unclosedStart = 1 := by decide
  have houter : (ofMarkers (openFront ++ misnamedBack)).regions =
      [⟨2, 7, 1, some "outer", false⟩] := by cbv
  have hblock : (ofMarkers misnamedBlock).regions =
      [⟨3, 6, 1, some "x", true⟩, ⟨4, 5, 2, none, false⟩] := by cbv
  obtain ⟨hregions, -, -, -, hnames, -⟩ :=
    ofMarkers_insert openFront misnamedBlock misnamedBack ha hb
  rw [houter, hblock, hcount] at hregions
  exact ⟨ha, hb, hregions, hnames⟩

end Outline

end Foldmark

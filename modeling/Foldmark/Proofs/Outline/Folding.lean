import Foldmark.Proofs.Outline.Faults

/-!
# Folded outlines

Settings may ask for every region to be folded. This decides about fold flags and nothing else: which
lines are markers, which marker of a line is kept and how markers are paired is the same as without
it. A start marker hands its flag on to the region that it opens, and an end marker has none.
-/
namespace Foldmark

def Region.folded (r : Region) : Region :=
  { r with fold := true }

/-- A start asks for a folded region; an end stays as it is. -/
def Marker.folded (m : Marker) : Marker :=
  match m.kind with
  | .start => { m with foldDefault := true }
  | .finish => m

namespace Marker

@[simp] theorem folded_line (m : Marker) : m.folded.line = m.line := by
  unfold folded
  split <;> rfl

@[simp] theorem folded_kind (m : Marker) : m.folded.kind = m.kind := by
  unfold folded
  split <;> rfl

@[simp] theorem folded_name (m : Marker) : m.folded.name = m.name := by
  unfold folded
  split <;> rfl

lemma foldDefault_folded {m : Marker} (h : m.kind = .start) : m.folded.foldDefault = true := by
  simp [folded, h]

end Marker

/-! ## Reading -/

namespace Recognizer

variable (r : Recognizer)

lemma startAfter?_folded (line : Nat) (fold : Bool) (rest : List Char) :
    r.startAfter? line true rest = (r.startAfter? line fold rest).map Marker.folded := by
  simp only [startAfter?]
  cases r.stripLeadingSentinel? rest with
  | some after =>
    dsimp only
    split_ifs <;> rfl
  | none =>
    dsimp only
    split_ifs <;> rfl

/-- Which keyword opens does not depend on the flag. -/
lemma startMarker?_folded (line : Nat) (content : List Char) (fold : Bool) :
    r.startMarker? line content true = (r.startMarker? line content fold).map Marker.folded := by
  simp only [startMarker?, List.map_findSome?, Function.comp_def, Option.map_bind,
    r.startAfter?_folded line fold]

lemma endMarker?_folded (line : Nat) (content : List Char) :
    (r.endMarker? line content).map Marker.folded = r.endMarker? line content := by
  simp only [endMarker?, List.map_findSome?, Function.comp_def, Option.map_bind, apply_ite,
    Option.map_some, Option.map_none, Marker.folded]

/-- The flag of the settings changes the flags of start markers only. -/
theorem parseLine_folded (line : Nat) (text : String) :
    { r with foldAll := true }.parseLine line text =
      ({ r with foldAll := false }.parseLine line text).map Marker.folded := by
  rw [parseLine_eq, parseLine_eq, Option.map_or, endMarker?_folded, ← startMarker?_folded,
    Bool.or_true]
  rfl

theorem collect_folded (entries : List CommentLine) :
    { r with foldAll := true }.collect entries =
      ({ r with foldAll := false }.collect entries).map Marker.folded := by
  let found := entries.filterMap fun entry =>
    { r with foldAll := false }.parseLine entry.line entry.text
  have hfound : (entries.filterMap fun entry =>
      { r with foldAll := true }.parseLine entry.line entry.text) = found.map Marker.folded := by
    simp only [found, List.map_filterMap, parseLine_folded]
  simp only [collect, hfound]
  apply dedupBy_mergeSort_map
  intro a _ b _
  rw [Marker.folded_line, Marker.folded_line]

end Recognizer

/-! ## Pairing -/

namespace Outline

/-- The same outline with every region folded. -/
def folded (outline : Outline) : Outline :=
  { outline with regions := outline.regions.map Region.folded }

namespace Pairing

def folded (p : Pairing) : Pairing :=
  { p with pending := p.pending.map Marker.folded, closed := p.closed.map Region.folded }

lemma ofNames_folded (start finish : Marker) :
    Fault.ofNames start.folded finish.folded = Fault.ofNames start finish := by
  simp only [Fault.ofNames, Marker.folded_name, Marker.folded_line]

lemma ofPair_folded {start : Marker} (h : start.kind = .start) (finish : Marker) (level : Nat) :
    Region.ofPair start.folded finish.folded level = (Region.ofPair start finish level).folded := by
  simp [Region.ofPair, Region.folded, Marker.foldDefault_folded h]

/-- No step looks at a flag. The region that is closed takes it from an open start. -/
lemma step_folded (p : Pairing) (m : Marker) (h : ∀ a ∈ p.pending, a.kind = .start) :
    p.folded.step m.folded = (p.step m).folded := by
  cases hk : m.kind with
  | start =>
    rw [step_of_start p m hk, step_of_start _ m.folded (by rw [Marker.folded_kind, hk])]
    rfl
  | finish =>
    have hk' : m.folded.kind = .finish := by rw [Marker.folded_kind, hk]
    cases hp : p.pending with
    | nil =>
      have hp' : p.folded.pending = [] := by simp [folded, hp]
      rw [step_of_nil p m hk hp, step_of_nil _ m.folded hk' hp', Marker.folded_line]
      rfl
    | cons start rest =>
      have hp' : p.folded.pending = start.folded :: rest.map Marker.folded := by
        simp [folded, hp]
      have hstart : start.kind = .start := h start (by simp [hp])
      rw [step_of_cons p m start rest hk hp, step_of_cons _ m.folded _ _ hk' hp']
      simp only [Marker.folded_line]
      split_ifs
      · rfl
      · simp [folded, ofNames_folded, ofPair_folded hstart]

theorem run_folded (ms : List Marker) : run {} (ms.map Marker.folded) = (run {} ms).folded := by
  induction ms using List.reverseRecOn with
  | nil => rfl
  | append_singleton ms m ih =>
    rw [List.map_append, List.map_singleton, run_concat, run_concat, ih,
      step_folded _ m (pending_kind ms)]

end Pairing

theorem ofMarkers_folded (ms : List Marker) :
    ofMarkers (ms.map Marker.folded) = (ofMarkers ms).folded := by
  have hsort : ((Pairing.run {} ms).closed.mergeSort precedes).map Region.folded =
      ((Pairing.run {} ms).closed.map Region.folded).mergeSort precedes :=
    List.map_mergeSort fun _ _ _ _ => rfl
  have hpending : ((Pairing.run {} ms).pending.map Marker.folded).reverse.map Fault.neverClosed =
      (Pairing.run {} ms).pending.reverse.map Fault.neverClosed := by
    simp [Fault.neverClosed, Function.comp_def]
  simp only [ofMarkers, Pairing.run_folded, Pairing.folded, folded, hsort, hpending]

/-- Settings that fold everything give the outline of the settings that do not, with every region
folded: the same regions and faults in the same order. -/
theorem ofCommentLines_folded (settings : Settings) (entries : List CommentLine) :
    ofCommentLines { settings with foldAllByDefault := true } entries =
      { regions := (ofCommentLines { settings with foldAllByDefault := false } entries).regions.map
          fun r => { r with fold := true }
        faults := (ofCommentLines { settings with foldAllByDefault := false } entries).faults } := by
  have hcollect := (Recognizer.ofSettings settings).collect_folded entries
  exact (congrArg ofMarkers hcollect).trans (ofMarkers_folded _)

end Outline

end Foldmark

import Foldmark.Count

/-!
# Regions and outlines

A region is a matched pair of markers with its nesting level. An outline is everything that one
reading of a document yields: its regions and what was wrong with its markers.
-/
namespace Foldmark

structure Region where
  startLine : Nat
  endLine : Nat
  /-- Nesting depth, one for the outermost regions. -/
  level : Nat
  name : Option String := none
  fold : Bool := false
  deriving Repr, DecidableEq

namespace Region

/-- The number of lines from the start marker to the end marker, both included. -/
def lineCount (region : Region) : Except Overflow Nat := do
  let span ← Count.subtract region.endLine region.startLine
  Count.add span 1

theorem lineCount_eq_ok_iff {region : Region} {count : Nat} :
    region.lineCount = .ok count ↔ count = region.endLine - region.startLine + 1 ∧
      region.startLine ≤ region.endLine ∧
        region.endLine - region.startLine + 1 < Count.limit := by
  simp only [lineCount, Count.bind_eq_ok_iff, Count.subtract_eq_ok_iff, Count.add_eq_ok_iff]
  constructor
  · rintro ⟨span, ⟨rfl, hle⟩, rfl, hlt⟩
    exact ⟨rfl, hle, hlt⟩
  · rintro ⟨rfl, hle, hlt⟩
    exact ⟨_, ⟨rfl, hle⟩, rfl, hlt⟩

def contains (outer inner : Region) : Bool :=
  outer.startLine ≤ inner.startLine && inner.endLine ≤ outer.endLine

def isDisjoint (a b : Region) : Bool :=
  a.endLine < b.startLine || b.endLine < a.startLine

/-- Whether a line lies in the region, marker lines included. -/
def covers (region : Region) (line : Nat) : Bool :=
  region.startLine ≤ line && line ≤ region.endLine

def label (region : Region) : Except Overflow String := do
  let count ← region.lineCount
  let name := region.name.getD "region"
  return s!"{name} ({count} lines)"

end Region

inductive FaultKind where
  /-- An end marker with no open start. -/
  | unmatchedEnd
  /-- Start and end both have a name, and the names differ. -/
  | mismatchedName
  /-- A start marker that is still open at the end of the document. -/
  | unclosedStart
  deriving Repr, DecidableEq

def FaultKind.label : FaultKind → String
  | .unmatchedEnd => "unmatched_end"
  | .mismatchedName => "mismatched_name"
  | .unclosedStart => "unclosed_start"

/-- A problem of the markers of a document; it never stops the reading. -/
structure Fault where
  line : Nat
  kind : FaultKind
  message : String
  deriving Repr, DecidableEq

structure Outline where
  regions : List Region := []
  faults : List Fault := []
  deriving Repr, DecidableEq

namespace Outline

def isClean (outline : Outline) : Bool :=
  outline.faults.isEmpty

/-- The deepest nesting level, zero without regions. -/
def maxLevel (outline : Outline) : Nat :=
  outline.regions.foldl (fun deepest region => max deepest region.level) 0

/-- The region of the highest level among the given ones, the last of them if several have it. -/
def deepest? : List Region → Option Region
  | [] => none
  | region :: rest =>
    match deepest? rest with
    | none => some region
    | some other => if region.level ≤ other.level then some other else some region

/-- The innermost region around a line, marker lines included. -/
def innermostAt (outline : Outline) (line : Nat) : Option Region :=
  deepest? (outline.regions.filter (·.covers line))

def faultCount (outline : Outline) (kind : FaultKind) : Nat :=
  (outline.faults.filter fun fault => fault.kind = kind).length

end Outline

end Foldmark

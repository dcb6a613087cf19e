import Foldmark.Marker.Basic
import Foldmark.Region

/-!
# Pairing of markers

`Outline.ofMarkers` pairs start and end markers as brackets are paired. The starts that wait for
their end form a stack, innermost first. An end closes the innermost open start, if that stands on
an earlier line.
-/
namespace Foldmark

namespace Fault

def sameLine (line : Nat) : Fault :=
  ⟨line, .unmatchedEnd,
    s!"end marker on line {line} cannot close a region opened on the same line"⟩

def noStart (line : Nat) : Fault :=
  ⟨line, .unmatchedEnd, s!"end marker on line {line} has no matching start"⟩

def otherName (line : Nat) (closing opening : String) (opened : Nat) : Fault :=
  ⟨line, .mismatchedName,
    s!"end marker '{closing}' closes region '{opening}' opened on line {opened}"⟩

def neverClosed (start : Marker) : Fault :=
  ⟨start.line, .unclosedStart,
    match start.name with
    | some name => s!"region '{name}' opened on line {start.line} is never closed"
    | none => s!"region opened on line {start.line} is never closed"⟩

/-- The complaint about an end whose name differs from the name of its start. -/
def ofNames (start finish : Marker) : List Fault :=
  match start.name, finish.name with
  | some opening, some closing =>
    if opening = closing then [] else [otherName finish.line closing opening start.line]
  | _, _ => []

end Fault

namespace Outline

/-- The state of the pairing between two markers. -/
structure Pairing where
  /-- Starts that wait for their end, innermost first. -/
  pending : List Marker := []
  /-- Regions in the order in which they were closed. -/
  closed : List Region := []
  faults : List Fault := []
  deriving Repr, DecidableEq

namespace Pairing

def step (pairing : Pairing) (marker : Marker) : Pairing :=
  match marker.kind with
  | .start => { pairing with pending := marker :: pairing.pending }
  | .finish =>
    match pairing.pending with
    | [] => { pairing with faults := pairing.faults ++ [Fault.noStart marker.line] }
    | start :: rest =>
      if marker.line ≤ start.line then
        { pairing with faults := pairing.faults ++ [Fault.sameLine marker.line] }
      else
        { pending := rest
          closed := pairing.closed ++
            [⟨start.line, marker.line, rest.length + 1, start.name, start.foldDefault⟩]
          faults := pairing.faults ++ Fault.ofNames start marker }

def run (pairing : Pairing) (markers : List Marker) : Pairing :=
  markers.foldl step pairing

end Pairing

/-- Outer regions come before inner ones: by start line, then the later end first. -/
def precedes (a b : Region) : Bool :=
  a.startLine < b.startLine || (a.startLine == b.startLine && b.endLine ≤ a.endLine)

/-- Pairs the markers in the given order. Starts that are never closed are reported last, in the
order of their lines. -/
def ofMarkers (markers : List Marker) : Outline :=
  let final := Pairing.run {} markers
  { regions := final.closed.mergeSort precedes
    faults := final.faults ++ final.pending.reverse.map Fault.neverClosed }

end Outline

end Foldmark

import Foldmark.Text.Blank
import Foldmark.Text.Utf8

/-!
# Paths

A path is a row of octets in which a slash separates parts. Empty parts and single dots mean
nothing, except a dot at the very front.
-/
namespace Foldmark

structure Path where
  octets : List UInt8
  deriving Repr, DecidableEq

namespace Path

def slash : UInt8 := 47

def dot : UInt8 := 46

def ofString (s : String) : Path :=
  ⟨Text.Utf8.encode s.toList⟩

/-- The path as text, if it is text. -/
def text? (path : Path) : Option String :=
  (Text.Utf8.decode? path.octets).map String.ofList

/-- The path as it is shown, with U+FFFD for octets that are no text. -/
def display (path : Path) : String :=
  String.ofList (Text.Utf8.decodeLossy path.octets)

inductive Part where
  | root
  | here
  | up
  | name (octets : List UInt8)
  deriving Repr, DecidableEq

/-- Cuts octets at every slash. -/
def segments : List UInt8 → List (List UInt8)
  | [] => [[]]
  | b :: rest =>
    if b = slash then [] :: segments rest
    else
      match segments rest with
      | [] => [[b]]
      | segment :: more => (b :: segment) :: more

def joinSegments (parts : List (List UInt8)) : List UInt8 :=
  List.intercalate [slash] parts

/-- The part that a segment stands for, none for an empty one or a dot. -/
def part? (segment : List UInt8) : Option Part :=
  if segment = [] ∨ segment = [dot] then none
  else if segment = [dot, dot] then some .up
  else some (.name segment)

/-- The leading part that only the front of a path can have, and the segments after it. -/
def front (path : Path) : Option Part × List (List UInt8) :=
  match path.octets, segments path.octets with
  | [], _ => (none, [])
  | b :: _, segments =>
    if b = slash then (some .root, segments.drop 1)
    else if segments.head? = some [dot] then (some .here, segments.drop 1)
    else (none, segments)

def parts (path : Path) : List Part :=
  let (first, rest) := path.front
  first.toList ++ rest.filterMap part?

/-- The last part, if it is a name. -/
def fileName? (path : Path) : Option (List UInt8) :=
  match path.parts.getLast? with
  | some (.name octets) => some octets
  | _ => none

/-- What follows the last dot of a name; a dot at the front of the name does not count. -/
def extensionOf? (name : List UInt8) : Option (List UInt8) :=
  let back := name.reverse
  let after := back.takeWhile (· != dot)
  match back.drop after.length with
  | [] => none
  | [_] => none
  | _ => some after.reverse

def extension? (path : Path) : Option String :=
  (path.fileName?.bind extensionOf?).map fun octets =>
    String.ofList (Text.Utf8.decodeLossy octets)

/-- The path of an entry of a directory; an absolute path stands for itself. -/
def join (directory : Path) (entry : List UInt8) : Path :=
  if entry.head? = some slash then ⟨entry⟩
  else if directory.octets = [] ∨ directory.octets.getLast? = some slash then
    ⟨directory.octets ++ entry⟩
  else ⟨directory.octets ++ slash :: entry⟩

def isSkipped (segment : List UInt8) : Bool :=
  (part? segment).isNone

/-- Takes the given parts off the front of the segments. -/
def stripParts? : List Part → List (List UInt8) → Option (List (List UInt8))
  | [], segments => some segments
  | _ :: _, [] => none
  | part :: rest, segment :: segments =>
    match part? segment with
    | none => stripParts? (part :: rest) segments
    | some found => if found = part then stripParts? rest segments else none

def dropSkippedEnd (segments : List (List UInt8)) : List (List UInt8) :=
  (segments.reverse.dropWhile isSkipped).reverse

/-- The path below `base`, if it lies there: `base` is compared part by part. -/
def below? (path base : Path) : Option Path :=
  match base.front, path.front with
  | (none, baseRest), (none, rest) =>
    (stripParts? (baseRest.filterMap part?) rest).map fun left =>
      ⟨joinSegments (dropSkippedEnd (left.dropWhile isSkipped))⟩
  | (some lead, baseRest), (some found, rest) =>
    if lead = found then
      (stripParts? (baseRest.filterMap part?) rest).map fun left =>
        ⟨joinSegments (dropSkippedEnd (left.dropWhile isSkipped))⟩
    else none
  | (none, baseRest), (some found, rest) =>
    if (baseRest.filterMap part?).isEmpty then
      let lead := if found = .root then [] else [dot]
      some ⟨joinSegments (lead :: dropSkippedEnd rest)⟩
    else none
  | (some _, _), (none, _) => none

/-- Parts in the order in which paths are sorted. -/
def Part.rank : Part → Nat
  | .root => 0
  | .here => 1
  | .up => 2
  | .name _ => 3

def octetsLe : List UInt8 → List UInt8 → Bool
  | [], _ => true
  | _ :: _, [] => false
  | a :: as, b :: bs => a < b || (a == b && octetsLe as bs)

def Part.octets : Part → List UInt8
  | .name octets => octets
  | _ => []

def Part.le (a b : Part) : Bool :=
  a.rank < b.rank || (a.rank == b.rank && octetsLe a.octets b.octets)

def partsLe : List Part → List Part → Bool
  | [], _ => true
  | _ :: _, [] => false
  | a :: as, b :: bs => if a = b then partsLe as bs else a.le b

/-- Paths are sorted part by part, names by their octets. -/
def le (a b : Path) : Bool :=
  partsLe a.parts b.parts

end Path

end Foldmark

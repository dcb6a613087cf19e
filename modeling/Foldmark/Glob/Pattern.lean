import Foldmark.Path

/-!
# Patterns over octets

Regular patterns without nested repetition. `rests` gives what each possible match leaves over, and
`accepts` asks for a match that leaves nothing.
-/
namespace Foldmark.Glob

/-- A set of octets, given by ranges, or by the ranges that it leaves out. -/
structure OctetSet where
  negated : Bool := false
  ranges : List (UInt8 × UInt8)
  deriving Repr, DecidableEq

namespace OctetSet

def all : OctetSet := { negated := true, ranges := [] }

def single (b : UInt8) : OctetSet := { ranges := [(b, b)] }

def notSlash : OctetSet := { negated := true, ranges := [(Path.slash, Path.slash)] }

def has (set : OctetSet) (b : UInt8) : Bool :=
  (set.ranges.any fun (low, high) => low ≤ b && b ≤ high) != set.negated

end OctetSet

inductive Pattern where
  | empty
  | octet (set : OctetSet)
  /-- Any number of octets of a set. -/
  | run (set : OctetSet)
  | sequence (first second : Pattern)
  | either (first second : Pattern)
  deriving Repr, DecidableEq

namespace Pattern

def slash : Pattern := octet (.single Path.slash)

def anything : Pattern := run .all

/-- The patterns one after another. They are nested to the left, so that `rests` goes through a path
once a pattern. -/
def ofList (patterns : List Pattern) : Pattern :=
  patterns.foldl sequence empty

def literal (octets : List UInt8) : Pattern :=
  ofList (octets.map fun b => octet (.single b))

/-- What is left of the octets after leading ones of the set, for every number of them. -/
def runRests (set : OctetSet) : List UInt8 → List (List UInt8)
  | [] => [[]]
  | b :: rest => if set.has b then (b :: rest) :: runRests set rest else [b :: rest]

/-- What the matches at the front of the octets leave over. -/
def rests : Pattern → List UInt8 → List (List UInt8)
  | empty, octets => [octets]
  | octet _, [] => []
  | octet set, b :: rest => if set.has b then [rest] else []
  | run set, octets => runRests set octets
  | sequence first second, octets => ((first.rests octets).flatMap second.rests).eraseDups
  | either first second, octets => (first.rests octets ++ second.rests octets).eraseDups

def accepts (pattern : Pattern) (octets : List UInt8) : Bool :=
  (pattern.rests octets).any List.isEmpty

end Pattern

end Foldmark.Glob

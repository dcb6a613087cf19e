import Foldmark.Glob.Pattern

/-!
# Tokens of a glob

A glob is read as a row of tokens, and each token stands for a pattern. Two stars between slashes
stand for any number of directories.
-/
namespace Foldmark.Glob

inductive Token where
  | literal (c : Char)
  /-- A question mark. -/
  | any
  /-- A single star. -/
  | star
  /-- Two stars at the front. -/
  | directoriesFirst
  /-- Two stars at the end. -/
  | directoriesLast
  /-- Two stars between slashes. -/
  | directories
  /-- Characters in brackets. -/
  | oneOf (negated : Bool) (ranges : List (Char × Char))
  /-- Alternatives in braces, or none where all of them are empty. -/
  | group (pattern : Option Pattern)
  deriving Repr, DecidableEq

/-- How a glob is read. -/
structure Options where
  /-- Whether `?` and `*` match no slash. -/
  slashApart : Bool := false
  /-- Whether a bracket that is never closed stands for itself. -/
  openBrackets : Bool := false

namespace Token

/-- The octets of a range of characters. Only the octets on both sides of the hyphen form a range,
so a range is meant for characters of one octet. -/
def octetRanges (range : Char × Char) : List (UInt8 × UInt8) :=
  let low := Text.Utf8.encodeChar range.1
  let high := Text.Utf8.encodeChar range.2
  let single := fun b : UInt8 => (b, b)
  if range.1 = range.2 then low.map single
  else
    let middle := low.getLast?.toList.zip high.head?.toList
    low.dropLast.map single ++ middle ++ (high.drop 1).map single

/-- The pattern of a token, none where the token stands for nothing at all. -/
def pattern? (options : Options) : Token → Option Pattern
  | literal c => some (.literal (Text.Utf8.encodeChar c))
  | any => some (.octet (if options.slashApart then .notSlash else .all))
  | star => some (.run (if options.slashApart then .notSlash else .all))
  | directoriesFirst =>
    some (.either (.either .empty .slash) (.sequence .anything .slash))
  | directoriesLast => some (.sequence .slash .anything)
  | directories =>
    some (.either .slash (.sequence .slash (.sequence .anything .slash)))
  | oneOf negated ranges => some (.octet ⟨negated, ranges.flatMap octetRanges⟩)
  | group pattern => pattern

/-- The pattern of a row of tokens, none where it stands for nothing at all. -/
def patternOf? (options : Options) (tokens : List Token) : Option Pattern :=
  match tokens.filterMap (pattern? options) with
  | [] => none
  | patterns => some (.ofList patterns)

/-- The group of the given alternatives; empty alternatives do not count. -/
def ofBranches (options : Options) (branches : List (List Token)) : Token :=
  match branches.filterMap (patternOf? options) with
  | [] => group none
  | first :: others => group (some (others.foldl Pattern.either first))

def isLiteral : Token → Bool
  | literal _ => true
  | _ => false

end Token

end Foldmark.Glob

import Foldmark.Datum
import Foldmark.Decimal.Shortest

/-!
# JSON texts

Data are written compactly, without any blank, or spread over lines with an indent of two blanks a
level.
-/
namespace Foldmark.Json

/-- Numbers with an exponent that is not negative carry a plus sign. -/
def numberLayout : Decimal.Layout where
  plus := "+"
  infinite := fun _ => "null"
  notANumber := "null"

def hexDigit (n : Nat) : Char :=
  if n < 10 then Char.ofNat (48 + n) else Char.ofNat (87 + n)

/-- Quotes, backslashes and control characters are escaped, all else stands for itself. -/
def escape (c : Char) : List Char :=
  if c = '\x22' then ['\\', '\x22']
  else if c = '\\' then ['\\', '\\']
  else if c = '\n' then ['\\', 'n']
  else if c = '\r' then ['\\', 'r']
  else if c = '\t' then ['\\', 't']
  else if c.toNat = 8 then ['\\', 'b']
  else if c.toNat = 12 then ['\\', 'f']
  else if c.toNat < 32 then
    ['\\', 'u', '0', '0', hexDigit (c.toNat / 16), hexDigit (c.toNat % 16)]
  else [c]

def quote (s : String) : List Char :=
  '\x22' :: s.toList.flatMap escape ++ ['\x22']

/-- Where the parts of a list or record stand: what comes before a part at a depth, and what
separates a key from its value. -/
structure Spacing where
  before : Nat → List Char
  afterColon : List Char

def compactSpacing : Spacing where
  before := fun _ => []
  afterColon := []

def prettySpacing : Spacing where
  before := fun depth => '\n' :: List.replicate (2 * depth) ' '
  afterColon := [' ']

mutual

def write (spacing : Spacing) (depth : Nat) : Datum → List Char
  | .flag value => if value then "true".toList else "false".toList
  | .natural value => (toString value).toList
  | .real value => (numberLayout.write value).toList
  | .text value => quote value
  | .list [] => ['[', ']']
  | .list (item :: items) =>
    '[' :: spacing.before (depth + 1) ++ write spacing (depth + 1) item ++
      writeItems spacing (depth + 1) items ++ spacing.before depth ++ [']']
  | .record [] => ['\x7b', '\x7d']
  | .record ((key, value) :: fields) =>
    '\x7b' :: spacing.before (depth + 1) ++ quote key ++ ':' :: spacing.afterColon ++
      write spacing (depth + 1) value ++ writeFields spacing (depth + 1) fields ++
      spacing.before depth ++ ['\x7d']

/-- The items of a list after the first. -/
def writeItems (spacing : Spacing) (depth : Nat) : List Datum → List Char
  | [] => []
  | item :: items =>
    ',' :: spacing.before depth ++ write spacing depth item ++ writeItems spacing depth items

/-- The fields of a record after the first. -/
def writeFields (spacing : Spacing) (depth : Nat) : List (String × Datum) → List Char
  | [] => []
  | (key, value) :: fields =>
    ',' :: spacing.before depth ++ quote key ++ ':' :: spacing.afterColon ++
      write spacing depth value ++ writeFields spacing depth fields

end

def compact (datum : Datum) : String :=
  String.ofList (write compactSpacing 0 datum)

def pretty (datum : Datum) : String :=
  String.ofList (write prettySpacing 0 datum)

end Foldmark.Json

import Foldmark.Datum
import Foldmark.Decimal.Shortest
import Foldmark.Yaml.Scalar

/-!
# YAML texts

Records are written one field a line, nested records two blanks deeper. The items of a list stand
at the indent of the key of the list, each after a dash.
-/
namespace Foldmark.Yaml

def numberLayout : Decimal.Layout where
  plus := ""
  infinite := fun negative => if negative then "-.inf" else ".inf"
  notANumber := ".nan"

mutual

/-- What stands after the colon of a field or after a dash, up to the end of its last line, inside a
record or list of the given indent. -/
def writeValue (indent : Nat) : Datum → List Char
  | .flag value => ' ' :: (if value then "true\n".toList else "false\n".toList)
  | .natural value => ' ' :: (toString value).toList ++ ['\n']
  | .real value => ' ' :: (numberLayout.write value).toList ++ ['\n']
  | .text value => ' ' :: scalarLine (indent + 2) value
  | .list [] => " []\n".toList
  | .list items => '\n' :: writeItems indent items
  | .record [] => " \x7b\x7d\n".toList
  | .record fields => '\n' :: writeFields (indent + 2) (blanks (indent + 2)) fields

def writeItem (indent : Nat) : Datum → List Char
  | .record (field :: fields) => writeFields (indent + 2) [' '] (field :: fields)
  | value => writeValue indent value

def writeItems (indent : Nat) : List Datum → List Char
  | [] => []
  | item :: items =>
    blanks indent ++ '-' :: writeItem indent item ++ writeItems indent items

/-- The fields of a record; `lead` stands before the first of them. -/
def writeFields (indent : Nat) (lead : List Char) : List (String × Datum) → List Char
  | [] => []
  | (key, value) :: fields =>
    lead ++ key.toList ++ ':' :: writeValue indent value ++ writeFields indent (blanks indent) fields

end

/-- A record as a document. -/
def document : Datum → String
  | .record fields => String.ofList (writeFields 0 [] fields)
  | value => String.ofList ((writeValue 0 value).drop 1)

end Foldmark.Yaml

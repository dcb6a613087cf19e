/-!
# Data to be written

An ordered tree of values: what a record looks like before a format is chosen. The same tree is
written as JSON and as YAML.
-/
namespace Foldmark

inductive Datum where
  | flag (value : Bool)
  | natural (value : Nat)
  | real (value : Float)
  | text (value : String)
  | list (items : List Datum)
  | record (fields : List (String × Datum))

end Foldmark

import Foldmark.Json.Value

/-!
# Decoding of records

A record is written as an object, or as a list of its fields in order in which fields at the end
may be left out. Unknown members of an object are ignored; a known member must not occur twice.
-/
namespace Foldmark.Json.Value

def flag? : Value → Option Bool
  | flag value => some value
  | _ => none

def counter? : Value → Option Nat
  | number value => value.counter?
  | _ => none

def float? : Value → Option Float
  | number value => value.float?
  | _ => none

def text? : Value → Option String
  | text value => value
  | _ => none

def listOf? {α : Type} (item? : Value → Option α) : Value → Option (List α)
  | list items => items.mapM item?
  | _ => none

/-- A value that may be null. -/
def orNull? {α : Type} (value? : Value → Option α) : Value → Option (Option α)
  | null => some none
  | value => (value? value).map some

/-- The members of an object with all their keys. -/
def members? : Value → Option (List (String × Value))
  | record members => members.mapM fun (key, value) => key.map (·, value)
  | _ => none

/-- The values of a key, or failure if it occurs twice. -/
def single? (members : List (String × Value)) (key : String) : Option (Option Value) :=
  match members.filter fun (found, _) => found == key with
  | [] => some none
  | [(_, value)] => some (some value)
  | _ => none

/-- The values of the named fields, in the order of the names. -/
def fields? (names : List String) : Value → Option (List (Option Value))
  | list items =>
    if items.length ≤ names.length then
      some (items.map some ++ List.replicate (names.length - items.length) none)
    else none
  | value => value.members?.bind fun members => names.mapM (single? members)

def required? {α : Type} (value? : Value → Option α) (field : Option Value) : Option α :=
  field.bind value?

/-- A field that may be left out. -/
def optional? {α : Type} (default : α) (value? : Value → Option α) : Option Value → Option α
  | none => some default
  | some value => value? value

/-- One of several labels, written as a text or as an object with the label for a null. -/
def label? {α : Type} (labels : List (String × α)) : Value → Option α
  | text (some label) => labels.lookup label
  | record [(some label, null)] => labels.lookup label
  | _ => none

end Foldmark.Json.Value

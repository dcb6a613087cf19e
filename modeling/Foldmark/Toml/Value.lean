/-!
# TOML values and tables

A document fills one table. A table may be filled from several places as long as none of them claims
to define it twice; how a table came about says what may still be added to it.
-/
namespace Foldmark.Toml

/-- How a table came about. -/
inductive Origin where
  /-- Written in braces, and complete. -/
  | braces
  /-- Opened by a header of its own. -/
  | header
  /-- Passed through by the header of a table further down. -/
  | passed
  /-- Passed through by a dotted key. -/
  | dotted
  deriving Repr, DecidableEq

inductive Value where
  | text (value : String)
  | flag (value : Bool)
  | integer (value : Int)
  /-- A floating-point number as it is written. -/
  | float (numeral : String)
  /-- A date, a time or both as they are written. -/
  | moment (value : String)
  | list (items : List Value)
  | table (origin : Origin) (entries : List (String × Value))
  /-- Tables that headers in double brackets have added one by one. -/
  | tables (rows : List (List (String × Value)))

/-- The entries of a table in the order in which they were added. -/
abbrev Entries := List (String × Value)

namespace Entries

/-- Puts a value in the place of the value of a key that is present. -/
def replace (entries : Entries) (key : String) (value : Value) : Entries :=
  entries.map fun entry => if entry.1 = key then (key, value) else entry

/-- Changes the entries of the table at a path below the given ones. Tables on the way that do not
exist are made; a dotted key must not reach into a table that has a header of its own. The change
is told whether its table came from dotted keys. -/
def change (byDots : Bool) (edit : Bool → Entries → Option Entries) :
    List String → Bool → Entries → Option Entries
  | [], isDotted, entries => edit isDotted entries
  | key :: path, _, entries =>
    match entries.lookup key with
    | none =>
      let origin : Origin := if byDots then .dotted else .passed
      (change byDots edit path byDots []).map fun inner => entries ++ [(key, .table origin inner)]
    | some (.table origin inner) =>
      if origin = .braces ∨ (byDots ∧ origin = .header) then none
      else
        (change byDots edit path (origin = .dotted) inner).map fun inner =>
          replace entries key (.table origin inner)
    | some (.tables rows) =>
      match rows.getLast? with
      | none => none
      | some row =>
        (change byDots edit path false row).map fun row =>
          replace entries key (.tables (rows.dropLast ++ [row]))
    | some _ => none

/-- Adds a key that must be new. -/
def add (key : String) (value : Value) (entries : Entries) : Option Entries :=
  if (entries.lookup key).isSome then none else some (entries ++ [(key, value)])

/-- Assigns a value to a key at the end of a dotted path. A table that dots made takes further keys
from dotted paths only, and other tables from plain keys only. -/
def assign (path : List String) (key : String) (value : Value) (entries : Entries) :
    Option Entries :=
  change true (fun isDotted entries =>
    if isDotted == path.isEmpty then none else add key value entries) path false entries

/-- Opens the table of a header. -/
def openTable (path : List String) (key : String) (entries : Entries) : Option Entries :=
  change false (fun _ entries =>
    match entries.lookup key with
    | none => some (entries ++ [(key, .table .header [])])
    | some (.table .passed inner) => some (replace entries key (.table .header inner))
    | some _ => none) path false entries

/-- Adds a table to those of a header in double brackets. -/
def addTable (path : List String) (key : String) (entries : Entries) : Option Entries :=
  change false (fun _ entries =>
    match entries.lookup key with
    | none => some (entries ++ [(key, .tables [[]])])
    | some (.tables rows) => some (replace entries key (.tables (rows ++ [[]])))
    | some _ => none) path false entries

/-- Assigns below the table at the path of a header. -/
def assignIn (table : List String) (path : List String) (key : String) (value : Value)
    (entries : Entries) : Option Entries :=
  change false (fun _ entries => assign path key value entries) table false entries

end Entries

end Foldmark.Toml

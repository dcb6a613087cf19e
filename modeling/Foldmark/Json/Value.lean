import Foldmark.Decimal.Numeral

/-!
# JSON values

A value as its text spells it. A numeral keeps its digits, since it depends on the use whether it
is in range. A string is absent where its escapes spell no text, which matters only if the string
is used.
-/
namespace Foldmark.Json

inductive Value where
  | null
  | flag (value : Bool)
  | number (value : Decimal.Numeral)
  | text (value : Option String)
  | list (items : List Value)
  | record (members : List (Option String × Value))

inductive Token where
  | null
  | flag (value : Bool)
  | number (value : Decimal.Numeral)
  | text (value : Option String)
  | openList
  | closeList
  | openRecord
  | closeRecord
  | colon
  | comma
  deriving Repr, DecidableEq

end Foldmark.Json

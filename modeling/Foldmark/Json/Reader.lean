import Foldmark.Json.Token

/-!
# Reading JSON texts

`parse?` runs over the tokens of a text with the open lists and records on a stack, innermost
first. A text is one value with blanks around it.
-/
namespace Foldmark.Json

/-- A list or record that is still open; its finished parts stand last first. -/
inductive Frame where
  | list (done : List Value)
  | record (done : List (Option String × Value)) (key : Option String)

/-- What may come next. -/
inductive Next where
  /-- A value, or the end of the list that was just opened. -/
  | firstItem
  | value
  /-- A key, or the end of the record that was just opened. -/
  | firstKey
  | key
  | colon (key : Option String)
  /-- A comma or the end of the innermost list or record; at the top nothing. -/
  | more

structure Reading where
  stack : List Frame := []
  next : Next := .value
  result : Option Value := none

namespace Reading

/-- Takes a finished value. -/
def push (reading : Reading) (value : Value) : Reading :=
  match reading.stack with
  | [] => { reading with next := .more, result := some value }
  | .list done :: rest => { reading with stack := .list (value :: done) :: rest, next := .more }
  | .record done key :: rest =>
    { reading with stack := .record ((key, value) :: done) none :: rest, next := .more }

/-- Takes a token where a value may begin. -/
def beginValue? (reading : Reading) : Token → Option Reading
  | .null => some (reading.push .null)
  | .flag b => some (reading.push (.flag b))
  | .number n => some (reading.push (.number n))
  | .text s => some (reading.push (.text s))
  | .openList => some { reading with stack := .list [] :: reading.stack, next := .firstItem }
  | .openRecord =>
    some { reading with stack := .record [] none :: reading.stack, next := .firstKey }
  | _ => none

/-- Ends the innermost list or record. -/
def close? (reading : Reading) : Token → Option Reading
  | .closeList =>
    match reading.stack with
    | .list done :: rest => some ({ reading with stack := rest }.push (.list done.reverse))
    | _ => none
  | .closeRecord =>
    match reading.stack with
    | .record done _ :: rest => some ({ reading with stack := rest }.push (.record done.reverse))
    | _ => none
  | _ => none

def step? (reading : Reading) (token : Token) : Option Reading :=
  match reading.next with
  | .value => reading.beginValue? token
  | .firstItem =>
    match token with
    | .closeList => reading.close? token
    | _ => reading.beginValue? token
  | .firstKey =>
    match token with
    | .closeRecord => reading.close? token
    | .text key => some { reading with next := .colon key }
    | _ => none
  | .key =>
    match token with
    | .text key => some { reading with next := .colon key }
    | _ => none
  | .colon key =>
    match token, reading.stack with
    | .colon, .record done _ :: rest =>
      some { reading with stack := .record done key :: rest, next := .value }
    | _, _ => none
  | .more =>
    match token, reading.stack with
    | .comma, .list _ :: _ => some { reading with next := .value }
    | .comma, .record _ _ :: _ => some { reading with next := .key }
    | _, _ => reading.close? token

def run? (reading : Reading) : List Token → Option Reading
  | [] => some reading
  | token :: rest => (reading.step? token).bind (run? · rest)

def value? (reading : Reading) : Option Value :=
  if reading.stack.isEmpty then reading.result else none

end Reading

def ofTokens? (tokens : List Token) : Option Value :=
  (Reading.run? {} tokens).bind Reading.value?

def parse? (s : List Char) : Option Value :=
  (tokens? s).bind ofTokens?

end Foldmark.Json

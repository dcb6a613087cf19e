import Foldmark.Comment.Piece

/-!
# Comments of Python

A comment runs from a number sign to the end of its line. Strings hold no comments, except for the
code in the replacement fields of formatted strings.
-/
namespace Foldmark.Comment.Python

/-- What is open around a place in the source. -/
inductive Frame where
  | string (quote : Char) (triple formatted raw : Bool)
  /-- A replacement field with the number of brackets that are open in it. -/
  | field (depth : Nat)
  /-- The format specification of a replacement field. -/
  | spec
  deriving Repr, DecidableEq

structure State where
  /-- Innermost first. -/
  frames : List Frame := []
  /-- The letters directly before, last first. -/
  lead : List Char := []
  deriving Repr, DecidableEq

def isWordChar (c : Char) : Bool :=
  c.isAlphanum || c == '_' || 0x80 ≤ c.toNat

def isStringLetter (c : Char) : Bool :=
  "rRbBuUfF".toList.contains c

/-- The string that a quote opens after the given letters. -/
def opened (quote : Char) (triple : Bool) (lead : List Char) : Frame :=
  let letters := if lead.all isStringLetter then lead else []
  .string quote triple (letters.any fun c => c == 'f' || c == 'F')
    (letters.any fun c => c == 'r' || c == 'R')

/-- Code: comments, strings and brackets. -/
def codeStep (frames : List Frame) (lead : List Char) (c : Char) (rest : List Char) : Step State :=
  if c = '#' then
    { isComment := true, more := (rest.takeWhile (· != '\n')).length, state := ⟨frames, []⟩ }
  else if c = '\x22' ∨ c = '\x27' then
    let triple := [c, c].isPrefixOf rest
    { more := if triple then 2 else 0, state := ⟨opened c triple lead :: frames, []⟩ }
  else { state := ⟨frames, if isWordChar c then c :: lead else []⟩ }

/-- The number of characters of an escape after its backslash. -/
def escapeLength (quote : Char) (formatted raw : Bool) (rest : List Char) : Nat :=
  match rest with
  | 'N' :: '\x7b' :: name =>
    if formatted && !raw then 3 + (name.takeWhile (· != '\x7d')).length else 1
  | '\r' :: '\n' :: _ => 2
  | c :: _ => if c = quote ∨ c = '\\' ∨ c = '\n' then 1 else 0
  | [] => 0

/-- Inside a string. A line feed ends a string that is not triple. -/
def stringStep (quote : Char) (triple formatted raw : Bool) (outer : List Frame) (c : Char)
    (rest : List Char) : Step State :=
  let frames := .string quote triple formatted raw :: outer
  if c = '\\' then { more := escapeLength quote formatted raw rest, state := ⟨frames, []⟩ }
  else if c = quote ∧ ¬triple then { state := ⟨outer, []⟩ }
  else if c = quote ∧ [c, c].isPrefixOf rest then { more := 2, state := ⟨outer, []⟩ }
  else if c = '\n' ∧ ¬triple then { state := ⟨outer, []⟩ }
  else if formatted ∧ (c = '\x7b' ∨ c = '\x7d') ∧ rest.head? = some c then
    { more := 1, state := ⟨frames, []⟩ }
  else if formatted ∧ c = '\x7b' then { state := ⟨.field 0 :: frames, []⟩ }
  else { state := ⟨frames, []⟩ }

/-- Inside a replacement field: code, until the field closes or a colon begins its format
specification. -/
def fieldStep (depth : Nat) (outer : List Frame) (lead : List Char) (c : Char)
    (rest : List Char) : Step State :=
  if c = '(' ∨ c = '[' ∨ c = '\x7b' then { state := ⟨.field (depth + 1) :: outer, []⟩ }
  else if c = ')' ∨ c = ']' ∨ c = '\x7d' then
    if depth = 0 then { state := ⟨outer, []⟩ } else { state := ⟨.field (depth - 1) :: outer, []⟩ }
  else if c = ':' ∧ depth = 0 then { state := ⟨.spec :: outer, []⟩ }
  else codeStep (.field depth :: outer) lead c rest

/-- Inside a format specification, which has replacement fields of its own. -/
def specStep (outer : List Frame) (c : Char) : Step State :=
  if c = '\x7b' then { state := ⟨.field 0 :: .spec :: outer, []⟩ }
  else if c = '\x7d' then { state := ⟨outer, []⟩ }
  else { state := ⟨.spec :: outer, []⟩ }

def rule : Rule State := fun state c rest =>
  match state.frames with
  | [] => codeStep [] state.lead c rest
  | .string quote triple formatted raw :: outer =>
    stringStep quote triple formatted raw outer c rest
  | .field depth :: outer => fieldStep depth outer state.lead c rest
  | .spec :: outer => specStep outer c

end Foldmark.Comment.Python

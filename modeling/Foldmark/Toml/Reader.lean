import Foldmark.Toml.Scalar
import Foldmark.Toml.Text

/-!
# Reading TOML

A document is a row of statements, one a line: headers and assignments. `document?` reads it as the
entries of its table. Nothing is said about why a document is refused.
-/
namespace Foldmark.Toml

def isGap (c : Char) : Bool :=
  c == ' ' || c == '\t'

def dropGap (s : List Char) : List Char :=
  s.dropWhile isGap

/-- What follows a line end, which also is at the end of the document. -/
def lineEnd? : List Char → Option (List Char)
  | [] => some []
  | '\n' :: rest => some rest
  | '\r' :: '\n' :: rest => some rest
  | _ => none

/-- What follows the rest of a line that holds nothing but a comment. -/
def finishLine? (s : List Char) : Option (List Char) :=
  match dropGap s with
  | '#' :: rest => lineEnd? (rest.dropWhile isPlain)
  | rest => lineEnd? rest

/-- Blanks, line ends and comments; a comment ends with its line. -/
def trivia? : List Char → Option (List Char)
  | [] => some []
  | c :: rest =>
    if isGap c ∨ c = '\n' then trivia? rest
    else if c = '\r' ∧ rest.head? = some '\n' then trivia? rest
    else if c = '#' then
      match rest.drop (rest.takeWhile isPlain).length with
      | [] => none
      | d :: more =>
        if d = '\n' ∨ (d = '\r' ∧ more.head? = some '\n') then
          trivia? (rest.drop (rest.takeWhile isPlain).length)
        else none
    else some (c :: rest)
  termination_by s => s.length
  decreasing_by
    all_goals simp only [List.length_drop, List.length_cons]
    all_goals omega

/-! ## Keys -/

def isBareChar (c : Char) : Bool :=
  c.isAlphanum || c == '_' || c == '-'

def key? (s : List Char) : Option (String × List Char) :=
  match s with
  | [] => none
  | c :: rest =>
    if c = '\x22' ∨ c = '\x27' then
      (shortText? c rest).map fun (text, after) => (String.ofList text, after)
    else
      let bare := s.takeWhile isBareChar
      if bare.isEmpty then none else some (String.ofList bare, s.dropWhile isBareChar)

/-- Tables and lists are nested less deeply than this. -/
def depthLimit : Nat := 80

/-- A key with dots, blanks around every part. The first argument bounds the number of parts. -/
def keys? : Nat → List Char → Option (List String × List Char)
  | 0, _ => none
  | parts + 1, s => do
    let (key, after) ← key? (dropGap s)
    match dropGap after with
    | '.' :: rest =>
      let (keys, after) ← keys? parts rest
      return (key :: keys, after)
    | rest => return ([key], rest)

/-- A dotted key as the path to its table and the last part. -/
def keyPath? (s : List Char) : Option ((List String × String) × List Char) := do
  let (keys, after) ← keys? (depthLimit - 1) s
  let last ← keys.getLast?
  return ((keys.dropLast, last), after)

/-! ## Values -/

/-- The items of a list up to its closing bracket; a comma may stand after the last one. The number
bounds the items. -/
def items? (value? : List Char → Option (Value × List Char)) :
    Nat → List Char → Option (List Value × List Char)
  | 0, _ => none
  | count + 1, s => do
    match ← trivia? s with
    | ']' :: rest => return ([], rest)
    | s =>
      let (value, after) ← value? s
      match ← trivia? after with
      | ']' :: rest => return ([value], rest)
      | ',' :: rest =>
        let (values, after) ← items? value? count rest
        return (value :: values, after)
      | _ => none

/-- A key, an equals sign and a value. -/
def assignment? (value? : List Char → Option (Value × List Char)) (s : List Char) :
    Option ((List String × String) × Value × List Char) := do
  let (path, after) ← keyPath? s
  match after with
  | '=' :: rest =>
    let (value, after) ← value? (dropGap rest)
    return (path, value, after)
  | _ => none

/-- The entries of a table in braces, added to those before them, on one line and with no comma
after the last one. The number bounds the entries. -/
def members? (value? : List Char → Option (Value × List Char)) :
    Nat → Entries → List Char → Option (Entries × List Char)
  | 0, _, _ => none
  | count + 1, entries, s => do
    let ((path, key), value, after) ← assignment? value? s
    let entries ← entries.assign path key value
    match dropGap after with
    | '\x7d' :: rest => return (entries, rest)
    | ',' :: rest => members? value? count entries rest
    | _ => none

/-- A value at the front. The number bounds how deeply lists and tables are nested. -/
def value? : Nat → List Char → Option (Value × List Char)
  | _, [] => none
  | depth, c :: rest =>
    if c = '\x22' ∨ c = '\x27' then
      (text? c rest).map fun (text, after) => (.text (String.ofList text), after)
    else if c = '[' then
      match depth with
      | 0 => none
      | depth + 1 =>
        (items? (value? depth) (rest.length + 1) rest).map fun (items, after) =>
          (.list items, after)
    else if c = '\x7b' then
      match depth with
      | 0 => none
      | depth + 1 =>
        match dropGap rest with
        | '\x7d' :: after => some (.table .braces [], after)
        | inner =>
          (members? (value? depth) (inner.length + 1) [] inner).map fun (entries, after) =>
            (.table .braces entries, after)
    else
      let count := scalarLength (c :: rest)
      (scalar? ((c :: rest).take count)).map (·, (c :: rest).drop count)

/-! ## Statements -/

structure State where
  entries : Entries := []
  /-- The table of the last header. -/
  table : List String := []

/-- The statement at the front of a line that is not blank, and what follows it. -/
def statement? (state : State) (s : List Char) : Option (State × List Char) :=
  match s with
  | '[' :: '[' :: rest => do
    let ((path, key), after) ← keyPath? rest
    match after with
    | ']' :: ']' :: rest =>
      return (⟨← state.entries.addTable path key, path ++ [key]⟩, ← finishLine? rest)
    | _ => none
  | '[' :: rest => do
    let ((path, key), after) ← keyPath? rest
    match after with
    | ']' :: rest =>
      return (⟨← state.entries.openTable path key, path ++ [key]⟩, ← finishLine? rest)
    | _ => none
  | _ => do
    let ((path, key), value, after) ← assignment? (value? (depthLimit - 1)) s
    let entries ← state.entries.assignIn state.table path key value
    return ({ state with entries }, ← finishLine? after)

/-- The statements of the lines. The number bounds the lines. -/
def statements? : Nat → State → List Char → Option State
  | 0, _, _ => none
  | count + 1, state, s =>
    match dropGap s with
    | [] => some state
    | line =>
      match finishLine? line with
      | some rest => statements? count state rest
      | none => (statement? state line).bind fun (state, rest) => statements? count state rest

/-- The entries of a document. A byte order mark at its front does not count. -/
def document? (s : List Char) : Option Entries :=
  let s := match s with
    | c :: rest => if c.toNat = 0xfeff then rest else s
    | [] => []
  (statements? (s.length + 1) {} s).map State.entries

end Foldmark.Toml

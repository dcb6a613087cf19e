import Foldmark.Glob.Matcher
import Foldmark.Text.Lines
import Foldmark.Volume

/-!
# Ignore files

Each line of an ignore file is a rule: a glob below the root, that ignores what it matches or takes
it back. The last rule that matches decides.
-/
namespace Foldmark.Ignore

structure Rule where
  glob : Glob
  /-- Whether what the rule matches is kept. -/
  keeps : Bool
  /-- Whether the rule is about directories only. -/
  directoriesOnly : Bool

/-- A rule as it is written: the glob still as text. -/
structure RawRule where
  glob : List Char
  keeps : Bool
  directoriesOnly : Bool
  deriving Repr, DecidableEq

/-- Takes the slash at the end off, and a backslash before it. -/
def dropDirectorySlash (line : List Char) : List Char × Bool :=
  match line.reverse with
  | '/' :: '\\' :: back => (back.reverse, true)
  | '/' :: back => (back.reverse, true)
  | _ => (line, false)

/-- The signs at the front of a line: whether it keeps, whether it is bound to the root, and the
rest. -/
def leadingSigns (line : List Char) : Bool × Bool × List Char :=
  match line with
  | '\\' :: '!' :: _ => (false, false, line.drop 1)
  | '\\' :: '#' :: _ => (false, false, line.drop 1)
  | _ =>
    let (keeps, rest) := match line with
      | '!' :: rest => (true, rest)
      | _ => (false, line)
    match rest with
    | '/' :: rest => (keeps, true, rest)
    | _ => (keeps, false, rest)

/-- A rule that is not bound to the root and has no slash holds in every directory. -/
def inEveryDirectory (bound : Bool) (glob : List Char) : List Char :=
  if bound ∨ '/' ∈ glob ∨ glob = ['*', '*'] then glob else ['*', '*', '/'] ++ glob

/-- What is inside a directory does not mean the directory itself. -/
def insideOnly (glob : List Char) : List Char :=
  if ['/', '*', '*'].isSuffixOf glob then glob ++ ['/', '*'] else glob

/-- The part of a line that counts: blanks at the end are dropped unless the last is escaped. -/
def content (line : List Char) : List Char :=
  if ['\\', ' '].isSuffixOf line then line else Text.trimEnd line

/-- The rule on a line, if there is one. -/
def RawRule.ofLine? (line : List Char) : Option RawRule :=
  if line.head? = some '#' ∨ (content line).isEmpty then none
  else
    let (keeps, bound, rest) := leadingSigns (content line)
    let (glob, directoriesOnly) := dropDirectorySlash rest
    some ⟨insideOnly (inEveryDirectory bound glob), keeps, directoriesOnly⟩

def options : Glob.Options := { slashApart := true, openBrackets := true }

/-- The rule on a line, none for a line without one. A fault is told about the line itself. -/
def Rule.ofLine (line : List Char) : Except String (Option Rule) :=
  match RawRule.ofLine? line with
  | none => .ok none
  | some raw =>
    match Glob.ofString options (String.ofList raw.glob) with
    | .ok glob => .ok (some ⟨glob, raw.keeps, raw.directoriesOnly⟩)
    | .error fault => .error (fault.report (String.ofList (content line)))

/-! ## Files of rules -/

structure Rules where
  root : Path
  rules : List Rule

/-- Cuts octets after every line feed. -/
def octetRows : List UInt8 → List (List UInt8)
  | [] => []
  | b :: rest =>
    if b = 10 then [b] :: octetRows rest
    else
      match octetRows rest with
      | [] => [[b]]
      | row :: more => (b :: row) :: more

/-- The rules and the faults of numbered rows; a row that is no text ends the file. -/
def readRows : List (List UInt8 × Nat) → List Rule × List (Nat × String)
  | [] => ([], [])
  | (row, i) :: more =>
    match Text.Utf8.decode? row with
    | none => ([], [(i + 1, Trouble.notText.message)])
    | some text =>
      let line := Text.dropFeed text
      let line := if i = 0 then line.dropWhile (·.toNat == 0xfeff) else line
      let (rules, faults) := readRows more
      match Rule.ofLine line with
      | .error fault => (rules, (i + 1, fault) :: faults)
      | .ok none => (rules, faults)
      | .ok (some rule) => (rule :: rules, faults)

/-- A fault in an ignore file with its place. -/
def faultText (file : Path) (fault : Nat × String) : String :=
  let line := s!"line {fault.1}: "
  let whole := line ++ fault.2
  if file.octets = [] then whole else file.display ++ ": " ++ whole

/-- Reads an ignore file for paths below the root, or gives its faults. -/
def Rules.ofFile (volume : Volume) (root file : Path) : Except (List String) Rules :=
  let root := ⟨(Text.stripStart? [Path.dot, Path.slash] root.octets).getD root.octets⟩
  match volume.read file with
  | .error trouble => .error [faultText file (1, trouble.message)]
  | .ok octets =>
    match readRows (octetRows octets).zipIdx with
    | (rules, []) => .ok ⟨root, rules⟩
    | (_, faults) => .error (faults.map (faultText file))

/-- A path as the rules see it: without a leading `./`, and below the root. -/
def Rules.relative (rules : Rules) (path : Path) : List UInt8 :=
  let octets := (Text.stripStart? [Path.dot, Path.slash] path.octets).getD path.octets
  if rules.root.parts = [.here] ∨ Path.slash ∉ octets then octets
  else
    match Text.stripStart? rules.root.octets octets with
    | none => octets
    | some rest => (Text.stripStart? [Path.slash] rest).getD rest

/-- Whether the last rule that matches ignores the path. -/
def Rules.ignores (rules : Rules) (path : Path) (isDirectory : Bool) : Bool :=
  let octets := rules.relative path
  let fits := fun rule : Rule =>
    (isDirectory || !rule.directoriesOnly) && rule.glob.accepts octets
  match rules.rules.reverse.find? fits with
  | some rule => !rule.keeps
  | none => false

end Foldmark.Ignore

import Foldmark.Ignore.Filter
import Foldmark.Report.Format

/-!
# Options of the command line

A draft gathers what the options say. Each option is a name with what it does to the draft; an
option that may be given once only fails the second time.
-/
namespace Foldmark.Command

/-- What options may say about the marker grammar and the output, before or after the name of a
command. -/
structure Shared where
  config : Option Path := none
  caseSensitive : Bool := false
  startKeywords : List String := []
  endKeywords : List String := []
  foldSentinel : Option String := none
  foldAll : Bool := false
  noColor : Bool := false
  verbose : Bool := false
  deriving Repr, DecidableEq

/-- Puts what is said after the name of a command above what is said before it. -/
def Shared.over (inner outer : Shared) : Shared where
  config := inner.config.or outer.config
  caseSensitive := inner.caseSensitive || outer.caseSensitive
  startKeywords := if inner.startKeywords.isEmpty then outer.startKeywords else inner.startKeywords
  endKeywords := if inner.endKeywords.isEmpty then outer.endKeywords else inner.endKeywords
  foldSentinel := inner.foldSentinel.or outer.foldSentinel
  foldAll := inner.foldAll || outer.foldAll
  noColor := inner.noColor || outer.noColor
  verbose := inner.verbose || outer.verbose

structure Draft where
  shared : Shared := {}
  /-- The argument that is no option. -/
  path : Option Path := none
  format : Option Report.Format := none
  output : Option Path := none
  languages : Option (List Language) := none
  patterns : List String := []
  ignoreFile : Option Path := none
  includeDependencies : Bool := false
  threads : Option Nat := none
  line : Option Nat := none
  ansi : Bool := false
  deriving Repr, DecidableEq

inductive Effect where
  | flag (set : Draft → Option Draft)
  | value (set : String → Draft → Option Draft)
  | version
  | help

structure Switch where
  long : String
  short : Option Char := none
  effect : Effect

/-! ## Readers of values -/

/-- Paths are not empty. -/
def path? (text : String) : Option Path :=
  if text.isEmpty then none else some (.ofString text)

/-- A number of 64 bits, with or without a plus sign. -/
def counter? (text : String) : Option Nat :=
  let digits := match text.toList with
    | '+' :: rest => rest
    | rest => rest
  if digits.isEmpty || !digits.all Char.isDigit then none
  else
    let value := digits.foldl (fun value c => value * 10 + (c.toNat - 48)) 0
    if value < Count.limit then some value else none

def languages? (text : String) : Option (List Language) :=
  [("python", [Language.python]), ("java-script", [.javaScript]), ("type-script", [.typeScript]),
    ("node", [.javaScript, .typeScript])].lookup text

/-- The value of an option that has not been given yet. -/
def once {α : Type} (found : Option α) (value : Option α) : Option (Option α) :=
  match found, value with
  | none, some value => some (some value)
  | _, _ => none

/-- A flag that has not been given yet. -/
def flagOnce (found : Bool) : Option Bool :=
  if found then none else some true

/-! ## The options -/

/-- A flag among the shared options. -/
def sharedFlag (set : Shared → Option Shared) : Effect :=
  .flag fun draft => (set draft.shared).map fun shared => { draft with shared }

/-- An option with a value among the shared options. -/
def sharedValue (set : String → Shared → Option Shared) : Effect :=
  .value fun text draft => (set text draft.shared).map fun shared => { draft with shared }

def sharedSwitches : List Switch := [
  { long := "config", effect := sharedValue fun text shared => do
      return { shared with config := ← once shared.config (path? text) } },
  { long := "case-sensitive", effect := sharedFlag fun shared => do
      return { shared with caseSensitive := ← flagOnce shared.caseSensitive } },
  { long := "start-keyword", effect := sharedValue fun text shared =>
      some { shared with startKeywords := shared.startKeywords ++ [text] } },
  { long := "end-keyword", effect := sharedValue fun text shared =>
      some { shared with endKeywords := shared.endKeywords ++ [text] } },
  { long := "fold-sentinel", effect := sharedValue fun text shared => do
      return { shared with foldSentinel := ← once shared.foldSentinel (some text) } },
  { long := "fold-all", effect := sharedFlag fun shared => do
      return { shared with foldAll := ← flagOnce shared.foldAll } },
  { long := "no-color", effect := sharedFlag fun shared => do
      return { shared with noColor := ← flagOnce shared.noColor } },
  { long := "verbose", short := some 'v', effect := sharedFlag fun shared => do
      return { shared with verbose := ← flagOnce shared.verbose } },
  { long := "help", short := some 'h', effect := .help }]

def formatSwitch : Switch :=
  { long := "format", short := some 'f', effect := .value fun text draft => do
      return { draft with format := ← once draft.format (Report.Format.ofLabel? text) } }

def scanSwitches : List Switch := [
  formatSwitch,
  { long := "output", short := some 'o', effect := .value fun text draft => do
      return { draft with output := ← once draft.output (path? text) } },
  { long := "language", effect := .value fun text draft => do
      return { draft with languages := ← once draft.languages (languages? text) } },
  { long := "ignore", effect := .value fun text draft =>
      some { draft with patterns := draft.patterns ++ [text] } },
  { long := "ignore-file", effect := .value fun text draft => do
      return { draft with ignoreFile := ← once draft.ignoreFile (path? text) } },
  { long := "include-deps", effect := .flag fun draft => do
      return { draft with includeDependencies := ← flagOnce draft.includeDependencies } },
  { long := "threads", effect := .value fun text draft => do
      return { draft with threads := ← once draft.threads (counter? text) } },
  { long := "version", short := some 'V', effect := .version }]

def lineSwitch : Switch :=
  { long := "line", effect := .value fun text draft => do
      return { draft with line := ← once draft.line (counter? text) } }

def ansiSwitch : Switch :=
  { long := "ansi", effect := .flag fun draft => do
      return { draft with ansi := ← flagOnce draft.ansi } }

end Foldmark.Command

import Foldmark.Command.Arguments
import Foldmark.Gutter
import Foldmark.Survey.Scan
import Foldmark.Toml.Settings

/-!
# Running a command

A command reads a volume and yields what it prints, its exit code, and the file that it writes.
-/
namespace Foldmark.Command

structure Outcome where
  exit : UInt32 := 0
  output : String := ""
  errors : String := ""
  /-- The file that is written, with its text. -/
  written : Option (Path × String) := none

/-- What goes wrong in a run: a message, and its causes from the outside in. -/
structure Failure where
  message : String
  causes : List String := []
  deriving Repr, DecidableEq

namespace Failure

/-- A text of several lines, whose later lines have the given margin. -/
def hang (margin text : String) : String :=
  String.intercalate ("\n" ++ margin) (text.splitOn "\n")

/-- A single cause is set in; several causes are numbered. -/
def causeLines : List String → List String
  | [cause] => ["    " ++ hang "    " cause]
  | causes => causes.zipIdx.map fun (cause, i) => s!"    {i}: " ++ hang "       " cause

def text (failure : Failure) : String :=
  let causes := match failure.causes with
    | [] => ""
    | causes => "\n\nCaused by:\n" ++ String.intercalate "\n" (causeLines causes)
  "Error: " ++ failure.message ++ causes ++ "\n"

def ofTrouble (trouble : Trouble) : Failure := ⟨trouble.message, []⟩

def ofLoad (fault : Settings.LoadFault) : Failure :=
  match fault with
  | .trouble cause => ⟨fault.message, [cause.message]⟩
  | _ => ⟨fault.message, []⟩

def ofSurvey (fault : Survey.Fault) : Failure :=
  match fault with
  | .filter cause => ⟨fault.message, [cause.message, cause.cause]⟩
  | .threads _ => ⟨fault.message, []⟩
  | _ => ⟨fault.message, [fault.cause]⟩

def ofReport (error : Report.Error) : Failure := ⟨error.message, error.cause?.toList⟩

end Failure

/-- The settings of a run: those of the file, with what the options say above them. -/
def Shared.apply (shared : Shared) (base : Settings) : Settings :=
  { base with
    caseSensitive := shared.caseSensitive || base.caseSensitive
    startKeywords :=
      if shared.startKeywords.isEmpty then base.startKeywords else shared.startKeywords
    endKeywords := if shared.endKeywords.isEmpty then base.endKeywords else shared.endKeywords
    foldSentinel := shared.foldSentinel.getD base.foldSentinel
    foldAllByDefault := shared.foldAll || base.foldAllByDefault }

def settingsOf (volume : Volume) (shared : Shared) : Except Failure Settings := do
  let base ← match shared.config with
    | none => pure {}
    | some path => (Settings.load volume path).mapError Failure.ofLoad
  let settings := shared.apply base
  match settings.check with
  | .error cause => throw (.ofLoad (.refused cause))
  | .ok () => return settings

def planOf (draft : Draft) (settings : Settings) : Plan :=
  { root := draft.path.getD (.ofString ".")
    languages := draft.languages
    patterns := draft.patterns
    ignoreFile := draft.ignoreFile
    includeDependencies := draft.includeDependencies
    threads := draft.threads.getD 0
    settings }

/-- Without colours the coloured format becomes the plain one. -/
def formatOf (draft : Draft) : Report.Format :=
  match draft.format.getD .json with
  | .ansi => if draft.shared.noColor then .summary else .ansi
  | format => format

section

variable (tools : Survey.Tools) (volume : Volume)

def runScan (info : Nat → RunInfo) (draft : Draft) (settings : Settings) :
    Except Failure Outcome := do
  let counted ←
    (Survey.ofPlan tools volume (planOf draft settings) info).mapError Failure.ofSurvey
  let survey ← counted.mapError fun cause => ⟨cause.message, []⟩
  let text ← (Report.survey (formatOf draft) survey).mapError Failure.ofReport
  match draft.output with
  | none => return { output := text ++ "\n" }
  | some path =>
    let _ ← (volume.write path (Text.Utf8.encode text.toList)).mapError Failure.ofTrouble
    let note :=
      if draft.shared.verbose then "Output written to: " ++ path.display ++ "\n" else ""
    return { errors := note, written := some (path, text) }

def runList (file : Path) (format : Report.Format) (settings : Settings) :
    Except Failure Outcome := do
  let source ← (Survey.file tools.parser volume { settings } file).mapError Failure.ofSurvey
  let text ← (Report.file format source).mapError Failure.ofReport
  return { output := text ++ "\n" }

def documentOf (file : Path) (settings : Settings) : Except Failure Document :=
  (Document.ofFile tools.parser settings volume file).mapError fun fault => ⟨fault.message, []⟩

def runTokens (file : Path) (line : Option Nat) (settings : Settings) :
    Except Failure Outcome := do
  let document ← documentOf tools volume file settings
  let tokens := match line with
    | some line => [(document.outline.directive line).token]
    | none => document.outline.foldTokens (Text.lineCount document.content.toList)
  return { output := String.join (tokens.map (· ++ "\n")) }

def runRender (file : Path) (ansi : Bool) (shared : Shared) (settings : Settings) :
    Except Failure Outcome := do
  let document ← documentOf tools volume file settings
  let text ← (Gutter.render true ansi document.content document.outline).mapError
    fun cause => ⟨cause.message, []⟩
  let regions := document.outline.regions.length
  let faults := document.outline.faults.length
  let note := if shared.verbose then s!"\n--- {regions} regions, {faults} errors ---\n" else ""
  return { output := text, errors := note }

/-- Runs what is asked for. The time of a survey over a number of files is given. -/
def Invocation.run (invocation : Invocation) (info : Nat → RunInfo) : Except Failure Outcome := do
  let settings ← settingsOf volume invocation.shared
  match invocation.action with
  | .scan draft => runScan tools volume info draft settings
  | .list file format => runList tools volume file format settings
  | .tokens file line => runTokens tools volume file line settings
  | .render file ansi => runRender tools volume file ansi invocation.shared settings

end

/-- The paths that a run looks at. -/
def Invocation.paths (invocation : Invocation) : List Path :=
  let rules := fun root : Path => root.join (Path.ofString ".gitignore").octets
  let asked := match invocation.action with
    | .scan draft =>
      let root := (planOf draft {}).root
      [root, draft.ignoreFile.getD (rules root)] ++ draft.output.toList
    | .list file _ => [file, rules (.ofString ".")]
    | .tokens file _ => [file]
    | .render file _ => [file]
  invocation.shared.config.toList ++ asked

/-- The program and its version, as they are shown. -/
def versionLine : String := "mta_rust_regionfold " ++ Survey.toolVersion ++ "\n"

def usage : String :=
  "Usage: mta_rust_regionfold [OPTIONS] [PATH] [COMMAND]\n\n" ++
    "Commands: list <FILE>, foldexpr <FILE>, render <FILE>\n"

def Stop.outcome : Stop → Outcome
  | version => { output := versionLine }
  | help => { output := usage }
  | misuse => { exit := 2, errors := "error: the arguments do not fit\n\n" ++ usage }

/-- The whole program: tools, arguments and a volume in, an outcome out. -/
def run (tools : Survey.Tools) (arguments : List String) (volume : Volume) (info : Nat → RunInfo) :
    Outcome :=
  match Invocation.ofArguments arguments with
  | .error stop => stop.outcome
  | .ok invocation =>
    match invocation.run tools volume info with
    | .ok outcome => outcome
    | .error failure => { exit := 1, errors := failure.text }

end Foldmark.Command

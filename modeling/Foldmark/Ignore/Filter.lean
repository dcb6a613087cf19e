import Foldmark.Ignore.Rule
import Foldmark.Language
import Foldmark.Settings

/-!
# What a survey visits

A plan says where a survey looks. A filter is made from it and decides path by path.
-/
namespace Foldmark

structure Plan where
  root : Path := .ofString "."
  /-- The languages to keep, all of them if none are given. -/
  languages : Option (List Language) := none
  /-- Globs of paths to leave out. -/
  patterns : List String := []
  /-- The ignore file, `.gitignore` at the root if none is given. -/
  ignoreFile : Option Path := none
  /-- Whether dependencies and build results are visited too. -/
  includeDependencies : Bool := false
  /-- How many threads read the files; zero leaves it to the machine. -/
  threads : Nat := 0
  settings : Settings := {}

namespace Ignore

/-- Paths that hold dependencies, build results or generated code. -/
def dependencies : List String :=
  ["**/node_modules/**", "**/.venv/**", "**/venv/**", "**/__pycache__/**", "**/dist/**",
    "**/build/**", "**/.git/**", "**/target/**", "**/*.min.js", "**/*.bundle.js"]

inductive Fault where
  | rules (faults : List String)
  | glob (pattern : String) (fault : Glob.Fault)
  deriving Repr, DecidableEq

/-- What is wrong, without what was being done. -/
def Fault.cause : Fault → String
  | rules faults => String.intercalate "\n" faults
  | glob pattern fault => fault.report pattern

def Fault.message : Fault → String
  | rules faults => "Failed to parse gitignore: " ++ (Fault.rules faults).cause
  | glob pattern fault => "Failed to build glob pattern: " ++ (Fault.glob pattern fault).cause

structure Filter where
  rules : Option Rules
  globs : List Glob

def globOf (pattern : String) : Except Fault Glob :=
  match Glob.ofString {} pattern with
  | .ok glob => .ok glob
  | .error fault => .error (.glob pattern fault)

def Filter.ofPlan (volume : Volume) (plan : Plan) : Except Fault Filter := do
  let file := plan.ignoreFile.getD (plan.root.join (Path.ofString ".gitignore").octets)
  let rules ←
    if volume.has file then
      match Rules.ofFile volume plan.root file with
      | .ok rules => pure (some rules)
      | .error faults => throw (.rules faults)
    else pure none
  let custom ← plan.patterns.mapM globOf
  let known ← if plan.includeDependencies then pure [] else dependencies.mapM globOf
  return ⟨rules, known ++ custom⟩

def Filter.ignores (filter : Filter) (path : Path) (isDirectory : Bool) : Bool :=
  let octets := Text.Utf8.encode path.display.toList
  (filter.globs.any fun glob => glob.accepts octets)
    || (filter.rules.any fun rules => rules.ignores path isDirectory)

end Ignore

def Path.language? (path : Path) : Option Language :=
  path.extension?.bind Language.ofExtension?

/-- Whether a path has a language that the plan keeps. -/
def Plan.keepsLanguage (plan : Plan) (path : Path) : Bool :=
  match path.language? with
  | none => false
  | some language =>
    match plan.languages with
    | none => true
    | some languages => languages.contains language

end Foldmark

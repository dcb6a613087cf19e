import Foldmark.Comment.Scanner
import Foldmark.Document
import Foldmark.Survey.Tally

/-!
# Surveys of a project

A survey visits the files below a root that the filter of its plan keeps, in the order of their
paths. The files come out in this order however many threads read them.
-/
namespace Foldmark

/-- Nodes, each with the names that lead to it from a folder. -/
abbrev Listing := List (List (List UInt8) × Node)

namespace Listing

/-- The nodes at and below the given names, each with its names from there. -/
def under (listing : Listing) (lead : List (List UInt8)) : Listing :=
  listing.filterMap fun (names, node) =>
    (Text.stripStart? lead names).map fun rest => (rest, node)

/-- The names in the folder itself, each once. -/
def entryNames (listing : Listing) : List (List UInt8) :=
  (listing.filterMap fun entry => entry.1.head?).eraseDups

/-- The number of names on all ways to the nodes. -/
def size : Listing → Nat
  | [] => 0
  | entry :: listing => entry.1.length + size listing

theorem mem_under_iff {listing : Listing} {lead rest : List (List UInt8)} {node : Node} :
    (rest, node) ∈ listing.under lead ↔ (lead ++ rest, node) ∈ listing := by
  simp only [under, List.mem_filterMap, Option.map_eq_some_iff, Prod.mk.injEq,
    Text.stripStart?_eq_some_iff]
  constructor
  · rintro ⟨⟨names, found⟩, member, _, rfl, rfl, rfl⟩
    exact member
  · intro member
    exact ⟨_, member, rest, rfl, rfl, rfl⟩

theorem mem_entryNames_iff {listing : Listing} {name : List UInt8} :
    name ∈ listing.entryNames ↔ ∃ rest node, (name :: rest, node) ∈ listing := by
  simp only [entryNames, List.mem_eraseDups, List.mem_filterMap, List.head?_eq_some_iff]
  constructor
  · rintro ⟨⟨_, node⟩, member, rest, rfl⟩
    exact ⟨rest, node, member⟩
  · rintro ⟨rest, node, member⟩
    exact ⟨_, member, rest, rfl⟩

/-- Every node under a name has lost one name of its way. -/
theorem size_under_le (listing : Listing) (name : List UInt8) :
    (listing.under [name]).size + (listing.under [name]).length ≤ listing.size := by
  induction listing with
  | nil => exact Nat.le_refl 0
  | cons entry listing ih =>
    obtain ⟨names, node⟩ := entry
    simp only [under, size, List.filterMap_cons] at ih ⊢
    cases found : Text.stripStart? [name] names with
    | none =>
      simp only [Option.map_none]
      omega
    | some rest =>
      obtain rfl := Text.stripStart?_eq_some_iff.mp found
      simp only [Option.map_some, size, List.length_append, List.length_cons, List.length_nil]
      omega

theorem size_under_lt {listing : Listing} {name : List UInt8}
    (member : name ∈ listing.entryNames) : (listing.under [name]).size < listing.size := by
  obtain ⟨rest, node, member⟩ := mem_entryNames_iff.mp member
  have inside : (rest, node) ∈ listing.under [name] := mem_under_iff.mpr member
  have := size_under_le listing name
  have := List.length_pos_of_mem inside
  omega

/-- Visits a folder, written as `folder`, that holds the listed nodes: gives its files and goes on
into its folders. A folder that `prunes` names is left out with all that it holds. -/
def visit (prunes : Path → Bool) (folder : Path) (listing : Listing) : List Path :=
  if prunes folder then []
  else
    listing.entryNames.attach.flatMap fun ⟨name, member⟩ =>
      have := size_under_lt member
      let path := folder.join name
      match (listing.under [name]).lookup [] with
      | some (.file _) => [path]
      | some (.link _) => [path]
      | _ => visit prunes path (listing.under [name])
  termination_by listing.size

end Listing

namespace Volume

/-- The files below a folder that is written as `root` and stands at the given names. -/
def filesIn (volume : Volume) (root : Path) (names : List (List UInt8)) (prunes : Path → Bool) :
    List Path :=
  (Listing.under volume.nodes names).visit prunes root

/-- The files at a root. A root that is a link counts as a file itself, and is entered as well if it
leads to a folder. Links further down are not entered. -/
def filesAt (volume : Volume) (root : Path) (prunes : Path → Bool) : List Path :=
  match volume.place false root with
  | .error _ => []
  | .ok ⟨_, none⟩ => []
  | .ok ⟨_, some (.file _)⟩ => [root]
  | .ok ⟨names, some .folder⟩ => volume.filesIn root names prunes
  | .ok ⟨_, some (.link _)⟩ =>
    match volume.place true root with
    | .ok ⟨names, some .folder⟩ =>
      root :: volume.filesIn root names fun path => path != root && prunes path
    | .ok ⟨_, some _⟩ => [root]
    | _ => []

end Volume

namespace Survey

/-- What a survey takes from elsewhere. -/
structure Tools where
  parser : Comment.Parser
  /-- Makes a pool of that many threads, or says why there is none. -/
  pool : Nat → Except String Unit

/-- The scanners of the library. Files are read one by one then, so a pool is always there. -/
def Tools.own : Tools := ⟨Comment.scanner, fun _ => .ok ()⟩

/-- Why a survey, or the reading of one file for it, fails. -/
inductive Fault where
  | settings (cause : Settings.Fault)
  | filter (cause : Ignore.Fault)
  | unsupported (extension : String)
  | unreadable (problem : String)
  | threads (reason : String)
  deriving Repr, DecidableEq

/-- What is wrong, without what was being done. -/
def Fault.cause : Fault → String
  | settings cause => "Invalid configuration: " ++ cause.message
  | filter cause => cause.message
  | unsupported extension => (Document.Fault.unsupported extension).message
  | unreadable problem => problem
  | threads reason => reason

def Fault.message : Fault → String
  | settings cause => "Config error: " ++ (Fault.settings cause).cause
  | filter cause => "Config error: " ++ (Fault.filter cause).cause
  | unsupported extension => "IO error: " ++ (Fault.unsupported extension).cause
  | unreadable problem => "IO error: " ++ (Fault.unreadable problem).cause
  | threads reason => "Thread pool error: " ++ (Fault.threads reason).cause

/-- The filter of a plan whose settings are sound. -/
def filterOf (volume : Volume) (plan : Plan) : Except Fault Ignore.Filter :=
  match plan.settings.check with
  | .error cause => .error (.settings cause)
  | .ok () =>
    match Ignore.Filter.ofPlan volume plan with
    | .error cause => .error (.filter cause)
    | .ok filter => .ok filter

/-- What the file at a path yields; a file that cannot be read or parsed says why. -/
def fileOf (parser : Comment.Parser) (volume : Volume) (plan : Plan) (path : Path)
    (language : Language) : SourceFile :=
  let file : SourceFile := { path := (path.below? plan.root).getD path, location := path, language }
  match volume.readText path with
  | .error trouble => { file with problem := some trouble.message }
  | .ok content =>
    let file := { file with lineCount := Text.lineCount content.toList }
    match Outline.ofSource parser plan.settings language content with
    | .error fault => { file with problem := some fault.message }
    | .ok outline => { file with outline, parsed := true }

/-- The paths to visit, in order. Left out is what `ignores` names, told whether it is a folder. -/
def paths (volume : Volume) (plan : Plan) (ignores : Path → Bool → Bool) : List Path :=
  let found := volume.filesAt plan.root fun folder => ignores folder true
  let kept := found.filter fun path => !ignores path false && plan.keepsLanguage path
  kept.mergeSort Path.le

def filesOf (parser : Comment.Parser) (volume : Volume) (plan : Plan)
    (ignores : Path → Bool → Bool) : List SourceFile :=
  (paths volume plan ignores).filterMap fun path =>
    path.language?.map (fileOf parser volume plan path)

/-- The threads of a survey. A single one needs no pool, and there is always one to leave it to. -/
def Tools.start (tools : Tools) (threads : Nat) : Except Fault Unit :=
  if threads ≤ 1 then .ok () else (tools.pool threads).mapError .threads

def toolVersion : String := "0.1.0"

/-- A survey that leaves out what `ignores` names, with what is recorded about a run over the number
of files found. -/
def conduct (tools : Tools) (volume : Volume) (plan : Plan) (ignores : Path → Bool → Bool)
    (info : Nat → RunInfo) : Except Fault (Except Overflow Survey) := do
  tools.start plan.threads
  let found := filesOf tools.parser volume plan ignores
  return (Tally.ofFiles found).map fun tally => ⟨plan.root, found, tally, info found.length⟩

/-- The survey of a plan. -/
def ofPlan (tools : Tools) (volume : Volume) (plan : Plan) (info : Nat → RunInfo) :
    Except Fault (Except Overflow Survey) := do
  let filter ← filterOf volume plan
  conduct tools volume plan filter.ignores info

/-- One file as a survey of the plan would give it. -/
def file (parser : Comment.Parser) (volume : Volume) (plan : Plan) (path : Path) :
    Except Fault SourceFile := do
  let _ ← filterOf volume plan
  match path.language? with
  | none => throw (.unsupported (path.extension?.getD ""))
  | some language =>
    let file := fileOf parser volume plan path language
    if file.parsed then return file
    else throw (.unreadable (file.problem.getD "Failed to parse file"))

end Survey

end Foldmark

import Foldmark.Language
import Foldmark.Path
import Foldmark.Region

/-!
# Source files and tallies

A source file is what one file of a project yields. A tally counts over files; every counter has
64 bits, so adding a file can fail.
-/
namespace Foldmark

structure SourceFile where
  /-- The path below the root of the project. -/
  path : Path
  /-- The path by which the file is opened. -/
  location : Path
  language : Language
  outline : Outline := {}
  lineCount : Nat := 0
  /-- Whether the file could be read and parsed. -/
  parsed : Bool := false
  /-- Why the file could not be read or parsed. -/
  problem : Option String := none
  deriving Repr, DecidableEq

structure Tally where
  totalFiles : Nat := 0
  filesWithRegions : Nat := 0
  filesWithErrors : Nat := 0
  totalRegions : Nat := 0
  foldedRegions : Nat := 0
  maxLevel : Nat := 0
  unmatchedEnd : Nat := 0
  mismatchedName : Nat := 0
  unclosedStart : Nat := 0
  pythonFiles : Nat := 0
  javaScriptFiles : Nat := 0
  typeScriptFiles : Nat := 0
  totalLines : Nat := 0
  regionLines : Nat := 0
  deriving Repr, DecidableEq

namespace Tally

def addLanguage (tally : Tally) : Language → Except Overflow Tally
  | .python => return { tally with pythonFiles := ← Count.add tally.pythonFiles 1 }
  | .javaScript => return { tally with javaScriptFiles := ← Count.add tally.javaScriptFiles 1 }
  | .typeScript => return { tally with typeScriptFiles := ← Count.add tally.typeScriptFiles 1 }

/-- Counts a region. Lines are counted for outermost regions only, so that no line of a nested
region counts twice. -/
def addRegion (tally : Tally) (region : Region) : Except Overflow Tally := do
  let tally := { tally with totalRegions := ← Count.add tally.totalRegions 1 }
  let tally ←
    if region.fold then pure { tally with foldedRegions := ← Count.add tally.foldedRegions 1 }
    else pure tally
  if region.level = 1 then
    let lines ← region.lineCount
    return { tally with regionLines := ← Count.add tally.regionLines lines }
  else return tally

def addFault (tally : Tally) (fault : Fault) : Except Overflow Tally :=
  match fault.kind with
  | .unmatchedEnd => return { tally with unmatchedEnd := ← Count.add tally.unmatchedEnd 1 }
  | .mismatchedName => return { tally with mismatchedName := ← Count.add tally.mismatchedName 1 }
  | .unclosedStart => return { tally with unclosedStart := ← Count.add tally.unclosedStart 1 }

def addFile (tally : Tally) (file : SourceFile) : Except Overflow Tally := do
  let tally := { tally with totalFiles := ← Count.add tally.totalFiles 1 }
  let tally ← tally.addLanguage file.language
  let tally := { tally with totalLines := ← Count.add tally.totalLines file.lineCount }
  let tally ←
    if file.outline.regions.isEmpty then pure tally
    else pure { tally with filesWithRegions := ← Count.add tally.filesWithRegions 1 }
  let tally ←
    if file.outline.faults.isEmpty then pure tally
    else pure { tally with filesWithErrors := ← Count.add tally.filesWithErrors 1 }
  let tally ← file.outline.regions.foldlM addRegion tally
  let tally := { tally with maxLevel := max tally.maxLevel file.outline.maxLevel }
  file.outline.faults.foldlM addFault tally

def ofFiles (files : List SourceFile) : Except Overflow Tally :=
  files.foldlM addFile {}

def totalErrors (tally : Tally) : Except Overflow Nat := do
  let ends ← Count.add tally.unmatchedEnd tally.mismatchedName
  Count.add ends tally.unclosedStart

end Tally

/-- What is recorded about one run of a survey. -/
structure RunInfo where
  durationMs : Nat
  filesPerSecond : Float
  timestamp : String
  toolVersion : String

/-- Everything that a survey of a project yields. -/
structure Survey where
  root : Path
  files : List SourceFile
  tally : Tally
  info : RunInfo

end Foldmark

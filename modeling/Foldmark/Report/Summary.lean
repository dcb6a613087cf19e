import Foldmark.Decimal.Fixed
import Foldmark.Survey.Tally
import Foldmark.Text.Styled

/-!
# Summary of a survey

Two summaries of a project: a plain one, and one with colours that is laid out more tightly.
-/
namespace Foldmark.Report

open Text (Piece Style Styled)

/-- The share of a part in percent, zero of nothing. -/
def percentage (part total : Nat) : Float :=
  if total = 0 then 0.0
  else (part.toUInt64.toFloat / total.toUInt64.toFloat) * 100.0

def percentText (part total : Nat) : String :=
  Decimal.fixed 1 (percentage part total)

/-- Files with a problem, those with the most faults first. -/
def problemFiles (files : List SourceFile) : List SourceFile :=
  (files.filter fun file => !file.outline.faults.isEmpty || file.problem.isSome).mergeSort
    fun a b => b.outline.faults.length ≤ a.outline.faults.length

/-- The lines about the problems of one file. A file that could not be read has one line. -/
def problemLines (file : SourceFile) : List String :=
  let path := file.path.display
  match file.problem with
  | some message => [s!"  {path} (not parsed: {message})\n"]
  | none => file.outline.faults.map fun fault => s!"  {path}:{fault.line}: {fault.message}\n"

def problemSection (files : List SourceFile) : String :=
  match problemFiles files with
  | [] => ""
  | found => "Files with problems:\n" ++ String.join (found.flatMap problemLines) ++ "\n"

def summary (survey : Survey) : Except Overflow String := do
  let tally := survey.tally
  let errors ← tally.totalErrors
  let root := survey.root.display
  let share := percentText tally.regionLines tally.totalLines
  let speed := Decimal.fixed 2 survey.info.filesPerSecond
  return String.join [
    s!"Region Analysis Summary\n=======================\nRoot: {root}\n\n",
    s!"Files Scanned: {tally.totalFiles} ({tally.filesWithRegions} with regions)\n",
    s!"- Python: {tally.pythonFiles}\n- JavaScript: {tally.javaScriptFiles}\n",
    s!"- TypeScript: {tally.typeScriptFiles}\n\n",
    s!"Total Lines: {tally.totalLines} | Lines in Regions: {tally.regionLines} ({share}%)\n\n",
    s!"Total Regions: {tally.totalRegions} (folded by default: {tally.foldedRegions}, ",
    s!"max depth: {tally.maxLevel})\nErrors: {errors}\n- Unmatched end: {tally.unmatchedEnd}\n",
    s!"- Mismatched name: {tally.mismatchedName}\n- Unclosed start: {tally.unclosedStart}\n\n",
    problemSection survey.files,
    s!"Scan Duration: {survey.info.durationMs}ms ({speed} files/sec)\n",
    s!"Timestamp: {survey.info.timestamp}\nTool Version: {survey.info.toolVersion}\n"]

/-- A word in a style of its own, followed by a text. -/
def heading (style : Style) (word text : String) : Styled :=
  [.style style, Styled.ofString word, .style .reset, Styled.ofString text]

/-- The line about one fault of a file. -/
def colouredFault (file : SourceFile) (fault : Fault) : Styled :=
  [Styled.ofString "  ", .style .yellow, Styled.ofString file.path.display, .style .reset,
    Styled.ofString s!":{fault.line} ", .style .red, Styled.ofString fault.message,
    .style .reset, Styled.ofString "\n"]

def colouredFaults (file : SourceFile) : Styled :=
  file.outline.faults.flatMap (colouredFault file)

/-- The summary with colours. Only files whose markers have faults are listed, in path order. -/
def colouredSummary (survey : Survey) : Except Overflow Styled := do
  let tally := survey.tally
  let errors ← tally.totalErrors
  let root := survey.root.display
  let share := percentText tally.regionLines tally.totalLines
  let speed := Decimal.fixed 2 survey.info.filesPerSecond
  let errorStyle := if 0 < errors then Style.red else Style.dim
  return [.style .bold, .style .cyan, Styled.ofString "Region Analysis Summary", .style .reset,
      Styled.ofString "\n", .style .cyan, Styled.ofString "=======================",
      .style .reset, Styled.ofString "\n"] ++
    heading .dim "Root:" s!" {root}\n\n" ++
    heading .dim "Files Scanned:"
      (s!" {tally.totalFiles} (Python: {tally.pythonFiles}, JavaScript: {tally.javaScriptFiles}, " ++
        s!"TypeScript: {tally.typeScriptFiles}), {tally.filesWithRegions} with regions\n") ++
    heading .dim "Regions:" s!" {tally.totalRegions} | " ++
    heading .dim "Folded:" s!" {tally.foldedRegions} | " ++
    heading .dim "Max depth:" s!" {tally.maxLevel} | " ++
    heading .dim "In regions:" s!" {tally.regionLines} of {tally.totalLines} lines ({share}%)\n" ++
    heading errorStyle "Errors:"
      (s!" {errors} (unmatched end: {tally.unmatchedEnd}, " ++
        s!"mismatched name: {tally.mismatchedName}, unclosed start: {tally.unclosedStart})\n\n") ++
    survey.files.flatMap colouredFaults ++
    heading .dim "Scan:" s!" {survey.info.durationMs}ms ({speed} files/sec)\n"

end Foldmark.Report

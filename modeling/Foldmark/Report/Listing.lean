import Foldmark.Survey.Tally
import Foldmark.Text.Styled

/-!
# Listing of one file

The regions and faults of a file, one a line. The same listing is shown with and without colours.
-/
namespace Foldmark.Report

open Text (Piece Style Styled)

/-- A region as an item of a numbered list, indented by its level. -/
def regionItem (number : Nat) (region : Region) : Except Overflow Styled := do
  let depth ← Count.subtract region.level 1
  let indent := String.ofList (← Count.repeated "  " depth)
  let name := region.name.getD "<unnamed>"
  let folded := if region.fold then ", folded" else ""
  return [Styled.ofString s!"{number}. {indent}{name} ", .style .dim,
    Styled.ofString
      s!"(lines {region.startLine}-{region.endLine}, level {region.level}{folded})",
    .style .reset, Styled.ofString "\n"]

def faultItem (fault : Fault) : Styled :=
  [Styled.ofString "  ", .style .red,
    Styled.ofString s!"line {fault.line}: {fault.message} ({fault.kind.label})", .style .reset,
    Styled.ofString "\n"]

def faultList (faults : List Fault) : Styled :=
  if faults.isEmpty then []
  else Styled.ofString s!"\nErrors: {faults.length}\n" :: faults.flatMap faultItem

def listing (file : SourceFile) : Except Overflow Styled := do
  let regions := file.outline.regions
  let items ← regions.zipIdx.mapM fun (region, i) => regionItem (i + 1) region
  let path := file.path.display
  let language := file.language.label
  let head : Styled := [.style .bold, Styled.ofString "File:", .style .reset,
    Styled.ofString s!" {path}\nLanguage: {language}\nLine Count: {file.lineCount}\n",
    Styled.ofString s!"Regions: {regions.length}\n\n"]
  return head ++ items.flatten ++ faultList file.outline.faults

end Foldmark.Report

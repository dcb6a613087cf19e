import Foldmark.Proofs.Path.Display
import Foldmark.Report.Format

/-!
# Files with problems

Behind its counts a summary has lines about the files with problems, and each of them begins with
the path of a file. The plain summary names every file that could not be read and every file with
faults. The coloured one has lines for faults only, so a file that could not be read is missing
there, unless a file with faults is shown by the same path.
-/
namespace Foldmark

open Text (Style Styled)

/-- The file could not be read, or its markers have faults. -/
def SourceFile.HasProblem (file : SourceFile) : Prop :=
  file.problem.isSome = true ∨ file.outline.faults ≠ []

namespace Report

/-- A line of a summary about a problem of a file. -/
structure ProblemLine where
  /-- The path of the file as it is shown. -/
  path : String
  remark : Styled

def ProblemLine.pieces (line : ProblemLine) : Styled :=
  [Styled.ofString "  ", .style .yellow, Styled.ofString line.path, .style .reset] ++ line.remark ++
    [Styled.ofString "\n"]

/-- What the plain summary says about a file. -/
def plainRemarks (file : SourceFile) : List Styled :=
  match file.problem with
  | some message => [[Styled.ofString s!" (not parsed: {message})"]]
  | none => file.outline.faults.map fun fault =>
      [Styled.ofString s!":{fault.line}: {fault.message}"]

/-- What the coloured summary says about a file. -/
def colouredRemarks (file : SourceFile) : List Styled :=
  file.outline.faults.map fun fault =>
    [Styled.ofString s!":{fault.line} ", .style .red, Styled.ofString fault.message, .style .reset]

/-- The lines about problems that give some remarks on every file. -/
def linesOf (remarks : SourceFile → List Styled) (files : List SourceFile) : List ProblemLine :=
  files.flatMap fun file => (remarks file).map (ProblemLine.mk file.path.display)

/-- The lines about problems in the plain summary. -/
def plainLines (files : List SourceFile) : List ProblemLine :=
  linesOf plainRemarks (problemFiles files)

/-- The lines about problems in the coloured summary. -/
def colouredLines (files : List SourceFile) : List ProblemLine :=
  linesOf colouredRemarks files

/-- The lines of the plain summary under their title, which is left out with them. -/
def titled : List ProblemLine → String
  | [] => ""
  | lines => "Files with problems:\n" ++
      String.join (lines.map fun line => line.pieces.render false) ++ "\n"

/-! ## The paths of the lines -/

lemma mem_path_linesOf {remarks : SourceFile → List Styled} {files : List SourceFile}
    {path : String} :
    path ∈ (linesOf remarks files).map ProblemLine.path ↔
      ∃ file ∈ files, file.path.display = path ∧ remarks file ≠ [] := by
  simp only [linesOf, List.map_flatMap, List.map_map, List.mem_flatMap, List.mem_map,
    Function.comp_apply]
  constructor
  · rintro ⟨file, hfile, remark, hremark, rfl⟩
    exact ⟨file, hfile, rfl, List.ne_nil_of_mem hremark⟩
  · rintro ⟨file, hfile, rfl, hremarks⟩
    obtain ⟨remark, hremark⟩ := List.exists_mem_of_ne_nil _ hremarks
    exact ⟨file, hfile, remark, hremark, rfl⟩

lemma mem_problemFiles_iff {files : List SourceFile} {file : SourceFile} :
    file ∈ problemFiles files ↔ file ∈ files ∧ file.HasProblem := by
  simp [problemFiles, SourceFile.HasProblem, or_comm]

lemma plainRemarks_ne_nil {file : SourceFile} (h : file.HasProblem) : plainRemarks file ≠ [] := by
  cases hproblem : file.problem with
  | some message => simp [plainRemarks, hproblem]
  | none => simpa [plainRemarks, hproblem, SourceFile.HasProblem] using h

/-- The plain summary names the files that have a problem. -/
lemma mem_path_plainLines {files : List SourceFile} {path : String} :
    path ∈ (plainLines files).map ProblemLine.path ↔
      ∃ file ∈ files, file.path.display = path ∧ file.HasProblem := by
  rw [plainLines, mem_path_linesOf]
  constructor
  · rintro ⟨file, hfile, hpath, -⟩
    obtain ⟨hmem, hproblem⟩ := mem_problemFiles_iff.mp hfile
    exact ⟨file, hmem, hpath, hproblem⟩
  · rintro ⟨file, hfile, hpath, hproblem⟩
    exact ⟨file, mem_problemFiles_iff.mpr ⟨hfile, hproblem⟩, hpath, plainRemarks_ne_nil hproblem⟩

/-- The coloured summary names the files whose markers have faults. -/
lemma mem_path_colouredLines {files : List SourceFile} {path : String} :
    path ∈ (colouredLines files).map ProblemLine.path ↔
      ∃ file ∈ files, file.path.display = path ∧ file.outline.faults ≠ [] := by
  simp [colouredLines, mem_path_linesOf, colouredRemarks]

/-! ## The lines of a summary -/

lemma ProblemLine.render_pieces (path text : String) :
    (mk path [Styled.ofString text]).pieces.render false = "  " ++ path ++ text ++ "\n" := by
  apply String.toList_inj.mp
  simp [pieces, Styled.render, Styled.plain, Styled.ofString]

lemma problemLines_eq (file : SourceFile) :
    problemLines file = (plainRemarks file).map fun remark =>
      (ProblemLine.mk file.path.display remark).pieces.render false := by
  cases hproblem : file.problem with
  | some message =>
    simp only [problemLines, plainRemarks, hproblem, List.map_cons, List.map_nil,
      ProblemLine.render_pieces]
    apply congrArg (fun line => [line])
    apply String.toList_inj.mp
    simp only [String.toList_append, List.append_assoc]
    rfl
  | none =>
    simp only [problemLines, plainRemarks, hproblem, List.map_map]
    apply List.map_congr_left
    intro fault hfault
    rw [Function.comp_apply, ProblemLine.render_pieces]
    apply String.toList_inj.mp
    simp only [String.toList_append, List.append_assoc]
    rfl

lemma map_plainLines (files : List SourceFile) :
    ((plainLines files).map fun line => line.pieces.render false) =
      (problemFiles files).flatMap problemLines := by
  simp only [plainLines, linesOf, List.map_flatMap, List.map_map]
  apply List.flatMap_congr
  intro file hfile
  exact (problemLines_eq file).symm

lemma titled_of_ne_nil {lines : List ProblemLine} (h : lines ≠ []) :
    titled lines = "Files with problems:\n" ++
      String.join (lines.map fun line => line.pieces.render false) ++ "\n" := by
  cases lines with
  | nil => contradiction
  | cons line lines => rfl

lemma problemSection_eq (files : List SourceFile) :
    problemSection files = titled (plainLines files) := by
  rw [problemSection]
  split
  · next hnone => rw [plainLines, hnone]; rfl
  · next found hsome =>
    -- a file is listed for its problem, so there is a line about it
    obtain ⟨file, hfile⟩ := List.exists_mem_of_ne_nil _ hsome
    have hpath := mem_path_plainLines.mpr
      ⟨file, (mem_problemFiles_iff.mp hfile).1, rfl, (mem_problemFiles_iff.mp hfile).2⟩
    have hlines : plainLines files ≠ [] := by
      intro hnil
      simp [hnil] at hpath
    rw [titled_of_ne_nil hlines, map_plainLines]

lemma flatMap_colouredFaults (files : List SourceFile) :
    files.flatMap colouredFaults = (colouredLines files).flatMap ProblemLine.pieces := by
  simp only [colouredLines, linesOf, colouredRemarks, List.flatMap_assoc, List.map_map,
    List.flatMap_map]
  rfl

/-- The rest of a plain summary does not depend on the files. -/
lemma exists_frame_summary (survey : Survey) :
    ∃ head foot : Nat → String, ∀ files, summary { survey with files } =
      survey.tally.totalErrors.map fun errors =>
        head errors ++ problemSection files ++ foot errors := by
  -- what stands before and behind the section is read off the summary at the last step
  apply Exists.intro
  apply Exists.intro
  intro files
  rw [summary]
  dsimp only
  cases survey.tally.totalErrors with
  | error cause => rfl
  | ok errors =>
    apply congrArg Except.ok
    simp only [String.join, List.foldl_cons, List.foldl_nil]
    exact String.append_assoc

lemma exists_frame_colouredSummary (survey : Survey) :
    ∃ head foot : Nat → Styled, ∀ files, colouredSummary { survey with files } =
      survey.tally.totalErrors.map fun errors =>
        head errors ++ files.flatMap colouredFaults ++ foot errors := by
  apply Exists.intro
  apply Exists.intro
  intro files
  rw [colouredSummary]
  dsimp only
  cases survey.tally.totalErrors with
  | error cause => rfl
  | ok errors => rfl

/-! ## The two summaries -/

/-- Whatever files are surveyed, the counts of a summary enclose its lines about problems. The plain
summary names every file with a problem, and the coloured one names it if and only if a file with
faults is shown by the same path. -/
theorem problem_named_by_both_iff (survey : Survey) :
    (∃ head foot : Nat → String, ∀ files,
      Report.survey .summary { survey with files } = (ofOverflow survey.tally.totalErrors).map
        fun errors => head errors ++ titled (plainLines files) ++ foot errors) ∧
    (∃ head foot : Nat → Styled, ∀ files,
      Report.survey .ansi { survey with files } = (ofOverflow survey.tally.totalErrors).map
        fun errors => Styled.render true
          (head errors ++ (colouredLines files).flatMap ProblemLine.pieces ++ foot errors)) ∧
    ∀ file ∈ survey.files, file.HasProblem →
      file.path.display ∈ (plainLines survey.files).map ProblemLine.path ∧
      (file.path.display ∈ (colouredLines survey.files).map ProblemLine.path ↔
        ∃ other ∈ survey.files, other.path.display = file.path.display ∧
          other.outline.faults ≠ []) := by
  refine ⟨?_, ?_, ?_⟩
  · obtain ⟨head, foot, h⟩ := exists_frame_summary survey
    refine ⟨head, foot, fun files => ?_⟩
    rw [Report.survey, h, problemSection_eq]
    cases survey.tally.totalErrors <;> rfl
  · obtain ⟨head, foot, h⟩ := exists_frame_colouredSummary survey
    refine ⟨head, foot, fun files => ?_⟩
    rw [Report.survey, h, flatMap_colouredFaults]
    cases survey.tally.totalErrors <;> rfl
  · intro file hfile hproblem
    exact ⟨mem_path_plainLines.mpr ⟨file, hfile, rfl, hproblem⟩, mem_path_colouredLines⟩

/-- A file with an end that opens nothing. -/
def strayFile : SourceFile where
  path := Path.ofString "a.py"
  location := Path.ofString "p/a.py"
  language := .python
  outline := { faults := [⟨1, .unmatchedEnd, "endregion without a start"⟩] }
  lineCount := 1
  parsed := true

def unreadFile : SourceFile where
  path := Path.ofString "bad.py"
  location := Path.ofString "p/bad.py"
  language := .python
  problem := some "stream did not contain valid UTF-8"

def mixedSurvey : Survey where
  root := Path.ofString "p"
  files := [strayFile, unreadFile]
  tally := { totalFiles := 2, filesWithErrors := 1, unmatchedEnd := 1, pythonFiles := 2,
             totalLines := 1 }
  info := ⟨0, 0, "", ""⟩

theorem problem_named_by_both_stray :
    (strayFile ∈ mixedSurvey.files ∧ strayFile.HasProblem) ∧
      strayFile.path.display ∈ (plainLines mixedSurvey.files).map ProblemLine.path ∧
      strayFile.path.display ∈ (colouredLines mixedSurvey.files).map ProblemLine.path := by
  have hmem : strayFile ∈ mixedSurvey.files := List.mem_cons_self
  have hfaults : strayFile.outline.faults ≠ [] := by decide
  have hproblem : strayFile.HasProblem := Or.inr hfaults
  obtain ⟨hplain, hcoloured⟩ := (problem_named_by_both_iff mixedSurvey).2.2 strayFile hmem hproblem
  exact ⟨⟨hmem, hproblem⟩, hplain, hcoloured.mpr ⟨strayFile, hmem, rfl, hfaults⟩⟩

/-- A file that could not be read is missing in the coloured summary. -/
theorem unread_not_named_by_both :
    (unreadFile ∈ mixedSurvey.files ∧ unreadFile.HasProblem) ∧
      ¬ (unreadFile.path.display ∈ (plainLines mixedSurvey.files).map ProblemLine.path ↔
        unreadFile.path.display ∈ (colouredLines mixedSurvey.files).map ProblemLine.path) := by
  have hmem : unreadFile ∈ mixedSurvey.files := List.mem_cons_of_mem _ List.mem_cons_self
  have hproblem : unreadFile.HasProblem := Or.inl rfl
  refine ⟨⟨hmem, hproblem⟩, fun hboth => ?_⟩
  have hplain := mem_path_plainLines.mpr ⟨unreadFile, hmem, rfl, hproblem⟩
  obtain ⟨file, hfile, hpath, hfaults⟩ := mem_path_colouredLines.mp (hboth.mp hplain)
  obtain rfl | rfl : file = strayFile ∨ file = unreadFile := by simpa [mixedSurvey] using hfile
  · have hplain : ∀ b ∈ strayFile.path.octets, Text.Utf8.IsPlain b := by
      have hall : (strayFile.path.octets.all fun b => decide (Text.Utf8.IsPlain b)) = true := by
        decide
      simpa only [List.all_eq_true, decide_eq_true_eq] using hall
    have heq := (Path.display_eq_iff hplain).mp hpath.symm
    exact absurd heq (by decide)
  · exact hfaults rfl

end Report

end Foldmark

import Foldmark.Proofs.Comment.Scanners
import Foldmark.Proofs.Survey.Admission
import Foldmark.Proofs.Survey.Coverage

/-!
# Lines of regions and lines of files

The regions of a surveyed file lie within the lines of the file. So the lines that a tally counts for
them, each once, are no more than the lines of the file, and this stays so when files are added up.
-/
namespace Foldmark

namespace Outline

/-- A region begins and ends on lines of the source. -/
lemma regions_ofSource_within {parser : Comment.Parser} (hparser : parser.IsFaithful)
    {settings : Settings} {language : Language} {source : String} {outline : Outline}
    (h : ofSource parser settings language source = .ok outline) {r : Region}
    (hr : r ∈ outline.regions) :
    1 ≤ r.startLine ∧ r.endLine ≤ Text.lineCount source.toList := by
  obtain ⟨found, hfound, rfl⟩ := ofSource_eq_ok_iff.mp h
  obtain ⟨parse, tree, hparse, htree, rfl⟩ := Language.commentLines_eq_ok_iff.mp hfound
  have horder := hparser language parse source tree hparse htree
  have hascending := (Recognizer.ofSettings settings).collect_ascending
    (Comment.lines language.commentKinds source.toList tree)
  obtain ⟨start, finish, hmatches, level, rfl⟩ := exists_matches_of_mem_regions _ hascending r hr
  obtain ⟨opening, hopening, -, hstart⟩ :=
    Recognizer.exists_entry_of_mem_collect _ _ start hmatches.start_mem
  obtain ⟨closing, hclosing, -, hfinish⟩ :=
    Recognizer.exists_entry_of_mem_collect _ _ finish hmatches.finish_mem
  have hfirst := Comment.line_of_mem_lines horder hopening
  have hlast := Comment.line_of_mem_lines horder hclosing
  rw [Region.ofPair_startLine, Region.ofPair_endLine]
  omega

lemma wellNested_ofSource {parser : Comment.Parser} {settings : Settings} {language : Language}
    {source : String} {outline : Outline}
    (h : ofSource parser settings language source = .ok outline) : outline.WellNested := by
  obtain ⟨found, -, rfl⟩ := ofSource_eq_ok_iff.mp h
  exact ofCommentLines_wellNested settings found

lemma wellNested_empty : WellNested {} where
  ordered := .nil
  proper := by simp
  laminar := by simp
  apart := by simp
  level_eq := by simp

end Outline

namespace SourceFile

/-- The regions of the file nest and lie within its lines. -/
structure Sound (file : SourceFile) : Prop where
  nested : file.outline.WellNested
  within : ∀ r ∈ file.outline.regions, 1 ≤ r.startLine ∧ r.endLine ≤ file.lineCount

variable {file : SourceFile}

lemma Sound.coveredLines_subset (h : file.Sound) :
    file.outline.coveredLines ⊆ Finset.Icc 1 file.lineCount := by
  intro line hline
  obtain ⟨r, hr, hcovers⟩ := (file.outline.mem_coveredLines line).mp hline
  have hbounds := (r.covers_iff line).mp hcovers
  have hwithin := h.within r hr
  rw [Finset.mem_Icc]
  omega

/-- What a file adds to the lines in regions is no more than what it adds to the lines. -/
lemma Sound.regionLines_le (h : file.Sound) : file.tally.regionLines ≤ file.tally.totalLines := by
  have hlines : file.lineCount ≤ file.tally.totalLines := by
    simp only [SourceFile.tally, Tally.add_def, Tally.combine]
    omega
  calc file.tally.regionLines
      = (file.outline.coveredLines.filter fun line => file.outline.openBefore line = 0).card := by
        rw [Tally.regionLines_tally, h.nested.sum_regionLines]
    _ ≤ file.outline.coveredLines.card := Finset.card_filter_le _ _
    _ ≤ (Finset.Icc 1 file.lineCount).card := Finset.card_le_card h.coveredLines_subset
    _ = file.lineCount := by rw [Nat.card_Icc, Nat.add_sub_cancel]
    _ ≤ file.tally.totalLines := hlines

end SourceFile

namespace Tally

/-- Files whose regions do not end before they start are added up. -/
lemma ofFiles_eq_sum {files : List SourceFile} {tally : Tally}
    (hfiles : ∀ file ∈ files, file.Sound) (h : ofFiles files = .ok tally) :
    tally = (files.map SourceFile.tally).sum := by
  have hadds := Adds.foldlM files fun file hfile =>
    adds_file file fun r hr _ => ((hfiles file hfile).nested.proper r hr).le
  have hsum := ((hadds {} tally (by decide)).mp h).2
  rwa [← zero_def, zero_add] at hsum

end Tally

namespace Survey

lemma sound_fileOf {parser : Comment.Parser} (hparser : parser.IsFaithful) (volume : Volume)
    (plan : Plan) (path : Path) (language : Language) :
    (fileOf parser volume plan path language).Sound := by
  unfold fileOf
  cases volume.readText path with
  | error trouble => exact ⟨Outline.wellNested_empty, by simp⟩
  | ok content =>
    cases houtline : Outline.ofSource parser plan.settings language content with
    | error fault =>
      simp only [houtline]
      exact ⟨Outline.wellNested_empty, by simp⟩
    | ok outline =>
      simp only [houtline]
      exact ⟨Outline.wellNested_ofSource houtline,
        fun r hr => Outline.regions_ofSource_within hparser houtline hr⟩

lemma sound_of_mem_filesOf {parser : Comment.Parser} (hparser : parser.IsFaithful) {volume : Volume}
    {plan : Plan} {ignores : Path → Bool → Bool} {file : SourceFile}
    (h : file ∈ filesOf parser volume plan ignores) : file.Sound := by
  obtain ⟨path, -, hfile⟩ := List.mem_filterMap.mp h
  obtain ⟨language, -, rfl⟩ := Option.map_eq_some_iff.mp hfile
  exact sound_fileOf hparser volume plan path language

/-- A survey that ends without overflow holds the files of its plan and their tally. -/
lemma exists_of_ofPlan {tools : Tools} {volume : Volume} {plan : Plan} {info : Nat → RunInfo}
    {survey : Survey} (h : ofPlan tools volume plan info = .ok (.ok survey)) :
    ∃ ignores, survey.files = filesOf tools.parser volume plan ignores ∧
      Tally.ofFiles survey.files = .ok survey.tally := by
  cases hfilter : filterOf volume plan with
  | error fault => simp [ofPlan, hfilter, bind, Except.bind] at h
  | ok filter =>
    have hended := (finds_filesOf tools hfilter info).symm.trans h
    unfold ended at hended
    cases hstart : tools.start plan.threads with
    | error fault => simp [hstart, Except.map] at hended
    | ok start =>
      cases htally : Tally.ofFiles (filesOf tools.parser volume plan filter.ignores) with
      | error overflow => simp [hstart, htally, Except.map] at hended
      | ok tally =>
        rw [hstart, htally] at hended
        obtain rfl := Except.ok.inj (Except.ok.inj hended)
        exact ⟨filter.ignores, rfl, htally⟩

/-- Whatever parser gives the comments of all sources in order, every region of a survey lies within
the lines of its file, and the survey counts no more lines in regions than lines in files. -/
theorem regionLines_le_totalLines (tools : Tools) (volume : Volume) (plan : Plan)
    (info : Nat → RunInfo) (survey : Survey) (hparser : tools.parser.IsFaithful)
    (h : ofPlan tools volume plan info = .ok (.ok survey)) :
    (∀ file ∈ survey.files, ∀ r ∈ file.outline.regions,
        1 ≤ r.startLine ∧ r.startLine < r.endLine ∧ r.endLine ≤ file.lineCount) ∧
      survey.tally.regionLines ≤ survey.tally.totalLines := by
  obtain ⟨ignores, hfiles, htally⟩ := exists_of_ofPlan h
  have hsound : ∀ file ∈ survey.files, file.Sound := by
    intro file hfile
    rw [hfiles] at hfile
    exact sound_of_mem_filesOf hparser hfile
  constructor
  · intro file hfile r hr
    have hwithin := (hsound file hfile).within r hr
    exact ⟨hwithin.1, (hsound file hfile).nested.proper r hr, hwithin.2⟩
  · rw [Tally.ofFiles_eq_sum hsound htally]
    refine List.sum_induction (fun t : Tally => t.regionLines ≤ t.totalLines) ?_ (Nat.zero_le 0) ?_
    · intro a b ha hb
      exact Nat.add_le_add ha hb
    · intro t ht
      obtain ⟨file, hfile, rfl⟩ := List.mem_map.mp ht
      exact (hsound file hfile).regionLines_le

/-! ## A file that is one region -/

/-- A folder with one file, whose last line has no end. -/
def unended : Volume :=
  .ofNodes [] [(namesOf "p/a.py", .file (Path.ofString "# region\n# endregion").octets)]

def unendedPlan : Plan :=
  { root := Path.ofString "p", settings := { caseSensitive := true }, includeDependencies := true }

def unendedFile : SourceFile where
  path := Path.ofString "a.py"
  location := Path.ofString "p/a.py"
  language := .python
  outline := ⟨[⟨1, 2, 1, none, false⟩], []⟩
  lineCount := 2
  parsed := true

lemma place_unended :
    unended.place false unendedPlan.root = .ok ⟨namesOf "p", some .folder⟩ :=
  place_planAt (by decide) rfl (by decide +kernel)

lemma filterOf_unended : filterOf unended unendedPlan = .ok ⟨none, []⟩ := by
  have hcheck : unendedPlan.settings.check = .ok () := by decide
  have hfile : unended.has (unendedPlan.ignoreFile.getD
      (unendedPlan.root.join (Path.ofString ".gitignore").octets)) = false :=
    Volume.has_join_eq_false place_unended (by decide) (by decide +kernel)
  simp only [filterOf, hcheck, Ignore.Filter.ofPlan, hfile]
  rfl

lemma admits_unended_iff (rest : List (List UInt8)) :
    Admits unended unendedPlan (Ignore.Filter.ignores ⟨none, []⟩) (namesOf "p") rest ↔
      rest = namesOf "a.py" := by
  have hnodes : unended.nodes =
      [(namesOf "p" ++ namesOf "a.py", .file (Path.ofString "# region\n# endregion").octets)] := by
    decide +kernel
  constructor
  · intro h
    obtain ⟨node, hleaf, hnode⟩ := h.leaf
    rw [Volume.node?_eq_some_iff hleaf, hnodes, List.mem_singleton, Prod.mk.injEq] at hnode
    exact List.append_cancel_left hnode.1
  · rintro rfl
    have hfile : unended.node? (namesOf "p" ++ namesOf "a.py") =
        some (.file (Path.ofString "# region\n# endregion").octets) := by
      decide +kernel
    exact ⟨by decide, ⟨_, by simp, hfile⟩, by decide +kernel,
      Path.isOpen_cons_iff.mpr ⟨by decide +kernel, Path.isOpen_nil⟩, .python, by decide +kernel,
      by simp [unendedPlan]⟩

lemma filesOf_unended :
    filesOf Comment.scanner unended unendedPlan (Ignore.Filter.ignores ⟨none, []⟩) =
      [unendedFile] := by
  have hlanguage : (Path.ofString "p/a.py").language? = some .python := by decide +kernel
  have hbelow : (Path.ofString "p/a.py").below? unendedPlan.root = some (Path.ofString "a.py") := by
    decide +kernel
  have hpath : unendedPlan.root.joinAll (namesOf "a.py") = Path.ofString "p/a.py" := by
    decide +kernel
  have hpaths : paths unended unendedPlan (Ignore.Filter.ignores ⟨none, []⟩) =
      [Path.ofString "p/a.py"] := by
    rw [paths_eq place_unended (List.pairwise_singleton _ (namesOf "a.py")) fun rest =>
      List.mem_singleton.trans (admits_unended_iff rest).symm, List.map_singleton, hpath]
  have hread : unended.readText (Path.ofString "p/a.py") = .ok "# region\n# endregion" := by
    rw [← hpath, readText_joinAll place_unended (by decide)]
    decide +kernel
  have hlines : Language.commentLines Comment.scanner .python "# region\n# endregion" =
      .ok [⟨1, "# region"⟩, ⟨2, "# endregion"⟩] := by decide +kernel
  have houtline : Outline.ofSource Comment.scanner unendedPlan.settings .python
      "# region\n# endregion" = .ok ⟨[⟨1, 2, 1, none, false⟩], []⟩ := by
    rw [Outline.ofSource, hlines]
    cbv
  simp only [filesOf, hpaths, List.filterMap_cons, hlanguage, Option.map_some, fileOf, hread,
    houtline, hbelow]
  rfl

/-- All lines of the file are in its region, and the last of them counts although it has no end. -/
theorem regionLines_le_totalLines_unended :
    Tools.own.parser.IsFaithful ∧
      ∃ survey, ofPlan .own unended unendedPlan (fun _ => ⟨0, 0, "", toolVersion⟩) =
          .ok (.ok survey) ∧
        survey.files = [unendedFile] ∧ survey.tally.regionLines = 2 ∧
          survey.tally.regionLines ≤ survey.tally.totalLines := by
  have hparser : Tools.own.parser.IsFaithful := Comment.scanner_isFaithful
  have h : ofPlan .own unended unendedPlan (fun _ => ⟨0, 0, "", toolVersion⟩) =
      .ok (.ok ⟨unendedPlan.root, [unendedFile], unendedFile.tally, ⟨0, 0, "", toolVersion⟩⟩) := by
    have hfiles : filesOf Tools.own.parser unended unendedPlan (Ignore.Filter.ignores ⟨none, []⟩) =
        [unendedFile] := filesOf_unended
    rw [finds_filesOf .own filterOf_unended, hfiles]
    rfl
  exact ⟨hparser, _, h, rfl, rfl, (regionLines_le_totalLines _ _ _ _ _ hparser h).2⟩

end Survey

end Foldmark

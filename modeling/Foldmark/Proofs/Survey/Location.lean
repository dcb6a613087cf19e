import Foldmark.Proofs.Survey.Admission

/-!
# Where a project lies

The filter reads whole paths, with the root of the survey in them. So a root whose path has the name
of a folder of dependencies in it, or the ending of generated code, hides the whole project. Any two
other roots give the same files for the same project.
-/
namespace Foldmark

namespace Survey

variable {volume volume' : Volume} {plan plan' : Plan} {names names' rest : List (List UInt8)}
variable {parser : Comment.Parser}

lemma ignoresDependencies_iff {path : Path} {isDirectory : Bool} :
    ignoresDependencies path isDirectory = false ↔ ¬ path.IsDependency := by
  rw [← Path.any_dependencyGlobs_iff, Bool.not_eq_true]
  simp [ignoresDependencies, Ignore.Filter.ignores]

/-- What a survey of the project takes, wherever the project lies. -/
structure Belongs (volume : Volume) (plan : Plan) (names rest : List (List UInt8)) : Prop where
  below : rest ≠ []
  leaf : volume.HasLeaf (names ++ rest)
  own : Path.IsOwn rest
  language : ∃ language, (plan.root.joinAll rest).language? = some language ∧
    ∀ languages, plan.languages = some languages → language ∈ languages

/-- Below an excluded root nothing is admitted, below any other what belongs to the project. -/
lemma admits_iff_belongs (hroot : plan.root.octets ≠ []) :
    Admits volume plan ignoresDependencies names rest ↔
      ¬ plan.root.IsExcludedRoot ∧ Belongs volume plan names rest := by
  constructor
  · intro h
    have hleads : ∀ lead, lead <+: rest → ¬ (plan.root.joinAll lead).IsDependency := by
      intro lead hlead
      by_cases heq : lead = rest
      · exact heq ▸ ignoresDependencies_iff.mp h.kept
      · exact ignoresDependencies_iff.mp (h.ways lead hlead heq)
    obtain ⟨hexcluded, hown⟩ :=
      (Path.forall_not_isDependency_iff h.isName h.below hroot).mp hleads
    exact ⟨hexcluded, h.below, h.leaf, hown, h.language⟩
  · rintro ⟨hexcluded, h⟩
    have hleads := (Path.forall_not_isDependency_iff (Volume.isName_of_hasLeaf h.leaf) h.below
      hroot).mpr ⟨hexcluded, h.own⟩
    exact ⟨h.below, h.leaf, ignoresDependencies_iff.mpr (hleads rest List.prefix_rfl),
      fun lead hlead _ => ignoresDependencies_iff.mpr (hleads lead hlead), h.language⟩

/-- What belongs to a project is the same in two places of one tree. -/
lemma belongs_iff (hroot : plan.root.octets ≠ []) (hroot' : plan'.root.octets ≠ [])
    (hlanguages : plan.languages = plan'.languages)
    (htree : ∀ rest, rest ≠ [] → volume.node? (names ++ rest) = volume'.node? (names' ++ rest)) :
    Belongs volume plan names rest ↔ Belongs volume' plan' names' rest := by
  by_cases hne : rest = []
  · exact ⟨fun h => absurd hne h.below, fun h => absurd hne h.below⟩
  have hleaf : volume.HasLeaf (names ++ rest) ↔ volume'.HasLeaf (names' ++ rest) := by
    rw [Volume.HasLeaf, Volume.HasLeaf, htree rest hne]
  have hlanguage : ∀ h : volume.HasLeaf (names ++ rest),
      (plan.root.joinAll rest).language? = (plan'.root.joinAll rest).language? :=
    fun h => Path.language?_joinAll (Volume.isName_of_hasLeaf h) hne hroot hroot'
  constructor
  · intro h
    exact ⟨hne, hleaf.mp h.leaf, h.own, hlanguages ▸ hlanguage h.leaf ▸ h.language⟩
  · intro h
    exact ⟨hne, hleaf.mpr h.leaf, h.own, hlanguages ▸ hlanguage (hleaf.mpr h.leaf) ▸ h.language⟩

lemma map_path_eq {rests : List (List (List UInt8))} {files : List SourceFile}
    (h : List.Forall₂ (Describes parser volume plan names) rests files) :
    files.map (·.path) = rests.map fun rest => ⟨Path.joinSegments rest⟩ := by
  induction h with
  | nil => rfl
  | cons hfile _ ih => rw [List.map_cons, List.map_cons, hfile.path, ih]

lemma files_eq_nil_of_excluded {rests : List (List (List UInt8))} {files : List SourceFile}
    (hroot : plan.root.octets ≠ [])
    (hmem : ∀ rest, rest ∈ rests ↔
      Admits volume plan ignoresDependencies names rest)
    (hfiles : List.Forall₂ (Describes parser volume plan names) rests files)
    (hexcluded : plan.root.IsExcludedRoot) : files = [] := by
  have hrests : rests = [] := by
    refine List.eq_nil_iff_forall_not_mem.mpr fun rest hrest => ?_
    exact ((admits_iff_belongs hroot).mp ((hmem rest).mp hrest)).1 hexcluded
  rw [hrests, List.forall₂_nil_left_iff] at hfiles
  exact hfiles

/-- Two surveys of one tree give the same paths below their roots if both roots are excluded or
neither is, and otherwise only where nothing is found. -/
theorem finds_same_paths_iff (tools : Tools) (hbare : IsBare volume plan)
    (hbare' : IsBare volume' plan')
    (hlanguages : plan.languages = plan'.languages)
    (hroot : volume.place false plan.root = .ok ⟨names, some .folder⟩)
    (hroot' : volume'.place false plan'.root = .ok ⟨names', some .folder⟩)
    (htree : ∀ rest, rest ≠ [] → volume.node? (names ++ rest) = volume'.node? (names' ++ rest)) :
    ∃ files files', Finds tools volume plan files ∧ Finds tools volume' plan' files' ∧
      (plan.root.IsExcludedRoot → files = []) ∧ (plan'.root.IsExcludedRoot → files' = []) ∧
      (files.map (·.path) = files'.map (·.path) ↔
        (plan.root.IsExcludedRoot ↔ plan'.root.IsExcludedRoot) ∨ files = [] ∧ files' = []) := by
  have hoctets := (Volume.place_eq_ok hroot).1
  have hoctets' := (Volume.place_eq_ok hroot').1
  obtain ⟨rests, hsorted, hmem, hfiles⟩ :=
    exists_describes_filesOf tools.parser hroot ignoresDependencies
  obtain ⟨rests', hsorted', hmem', hfiles'⟩ :=
    exists_describes_filesOf tools.parser hroot' ignoresDependencies
  have hempty := files_eq_nil_of_excluded hoctets hmem hfiles
  have hempty' := files_eq_nil_of_excluded hoctets' hmem' hfiles'
  refine ⟨_, _, hbare.finds tools, hbare'.finds tools, hempty, hempty', ?_, ?_⟩
  · intro hpaths
    by_cases hexcluded : plan.root.IsExcludedRoot
    · rw [hempty hexcluded, List.map_nil, eq_comm, List.map_eq_nil_iff] at hpaths
      exact .inr ⟨hempty hexcluded, hpaths⟩
    · by_cases hexcluded' : plan'.root.IsExcludedRoot
      · rw [hempty' hexcluded', List.map_nil, List.map_eq_nil_iff] at hpaths
        exact .inr ⟨hpaths, hempty' hexcluded'⟩
      · exact .inl (iff_of_false hexcluded hexcluded')
  · rintro (hexcluded | ⟨hnil, hnil'⟩)
    · have hrests : rests = rests' := by
        refine eq_of_mem_iff hsorted hsorted' fun rest => ?_
        rw [hmem, hmem', admits_iff_belongs hoctets, admits_iff_belongs hoctets', hexcluded,
          belongs_iff hoctets hoctets' hlanguages htree]
      rw [map_path_eq hfiles, map_path_eq hfiles', hrests]
    · rw [hnil, hnil']

/-! ## One project in two places -/

/-- A volume that holds one tree and nothing else tells the tree alone, wherever it stands. -/
lemma node?_of_nodes_eq {listing : Listing} (hhere : volume.here = [])
    (hnodes : volume.nodes = listing.map fun entry => (names ++ entry.1, entry.2))
    (hne : rest ≠ []) :
    volume.node? (names ++ rest) =
      match listing.lookup rest with
      | some node => some node
      | none => if listing.any fun entry => rest.isPrefixOf entry.1 then some .folder else none := by
  have hlookup : volume.nodes.lookup (names ++ rest) = listing.lookup rest := by
    rw [hnodes]
    clear hnodes
    induction listing with
    | nil => rfl
    | cons entry listing ih =>
      have hkey : (names ++ rest == names ++ entry.1) = (rest == entry.1) := by
        rw [Bool.eq_iff_iff, beq_iff_eq, beq_iff_eq, List.append_cancel_left_eq]
      obtain ⟨found, node⟩ := entry
      rw [List.map_cons, List.lookup_cons, List.lookup_cons, ih, hkey]
  have hany : (volume.nodes.any fun entry => (names ++ rest).isPrefixOf entry.1) =
      listing.any fun entry => rest.isPrefixOf entry.1 := by
    rw [hnodes, List.any_map, Bool.eq_iff_iff]
    simp [List.isPrefixOf_iff_prefix, List.prefix_append_right_inj]
  rw [Volume.node?, hlookup, hany]
  cases listing.lookup rest with
  | some node => rfl
  | none => exact if_congr (by simp [hhere, hne]) rfl rfl

/-- A project of one file. -/
def planted (root : String) : Volume :=
  .ofNodes [] [(namesOf root ++ namesOf "a.py", .file (Path.ofString "# region\n# endregion\n").octets)]

lemma place_planted_p :
    (planted "p").place false (planAt "p").root = .ok ⟨namesOf "p", some .folder⟩ :=
  place_planAt (by decide) rfl (by decide +kernel)

lemma place_planted_build :
    (planted "build").place false (planAt "build").root = .ok ⟨namesOf "build", some .folder⟩ :=
  place_planAt (by decide) rfl (by decide +kernel)

lemma isBare_planted_p : IsBare (planted "p") (planAt "p") :=
  isBare_planAt place_planted_p (by decide +kernel)

lemma isBare_planted_build : IsBare (planted "build") (planAt "build") :=
  isBare_planAt place_planted_build (by decide +kernel)

lemma node?_planted {rest : List (List UInt8)} (hne : rest ≠ []) :
    (planted "p").node? (namesOf "p" ++ rest) = (planted "build").node? (namesOf "build" ++ rest) := by
  have hp : (planted "p").nodes = List.map (fun entry => (namesOf "p" ++ entry.1, entry.2))
      [(namesOf "a.py", .file (Path.ofString "# region\n# endregion\n").octets)] := by
    decide +kernel
  have hbuild : (planted "build").nodes =
      List.map (fun entry => (namesOf "build" ++ entry.1, entry.2))
        [(namesOf "a.py", .file (Path.ofString "# region\n# endregion\n").octets)] := by
    decide +kernel
  rw [node?_of_nodes_eq rfl hp hne, node?_of_nodes_eq rfl hbuild hne]

theorem finds_same_paths_planted :
    (IsBare (planted "p") (planAt "p") ∧ IsBare (planted "build") (planAt "build") ∧
      (planted "p").place false (planAt "p").root = .ok ⟨namesOf "p", some .folder⟩ ∧
      (planted "build").place false (planAt "build").root = .ok ⟨namesOf "build", some .folder⟩ ∧
      ∀ rest, rest ≠ [] → (planted "p").node? (namesOf "p" ++ rest) =
        (planted "build").node? (namesOf "build" ++ rest)) ∧
    ∃ files files', Finds .own (planted "p") (planAt "p") files ∧
      Finds .own (planted "build") (planAt "build") files' ∧
      ((planAt "p").root.IsExcludedRoot → files = []) ∧
      ((planAt "build").root.IsExcludedRoot → files' = []) ∧
      (files.map (·.path) = files'.map (·.path) ↔
        ((planAt "p").root.IsExcludedRoot ↔ (planAt "build").root.IsExcludedRoot) ∨
          files = [] ∧ files' = []) :=
  ⟨⟨isBare_planted_p, isBare_planted_build, place_planted_p, place_planted_build,
      fun _ => node?_planted⟩,
    finds_same_paths_iff .own isBare_planted_p isBare_planted_build rfl place_planted_p
      place_planted_build fun _ => node?_planted⟩

lemma admits_planted_p : Admits (planted "p") (planAt "p") ignoresDependencies (namesOf "p")
    (namesOf "a.py") where
  below := by decide
  leaf := ⟨.file (Path.ofString "# region\n# endregion\n").octets, by decide, by decide +kernel⟩
  kept := by decide +kernel
  ways := Path.isOpen_cons_iff.mpr ⟨by decide +kernel, Path.isOpen_nil⟩
  language := ⟨.python, by decide +kernel, by simp [planAt]⟩

/-- Moving a project into a folder of the name `build` hides it. -/
theorem finds_planted_ne :
    (∀ rest, rest ≠ [] → (planted "p").node? (namesOf "p" ++ rest) =
      (planted "build").node? (namesOf "build" ++ rest)) ∧
    ∃ files files', Finds .own (planted "p") (planAt "p") files ∧
      Finds .own (planted "build") (planAt "build") files' ∧
      files.map (·.path) ≠ files'.map (·.path) := by
  refine ⟨fun _ => node?_planted, _, _, isBare_planted_p.finds .own,
    isBare_planted_build.finds .own, ?_⟩
  obtain ⟨file, hfile, -⟩ := exists_mem_filesOf Tools.own.parser place_planted_p admits_planted_p
  obtain ⟨rests, -, hmem, hfiles⟩ :=
    exists_describes_filesOf Tools.own.parser place_planted_build ignoresDependencies
  rw [files_eq_nil_of_excluded (by decide) hmem hfiles (by decide), List.map_nil, Ne,
    List.map_eq_nil_iff]
  exact List.ne_nil_of_mem hfile

end Survey

end Foldmark

import Foldmark.Proofs.Ignore.Dependencies
import Foldmark.Proofs.Survey.Walk
import Mathlib.Data.List.Forall2

/-!
# Which files a survey takes

A survey of a folder takes every file and every link below it that is not ignored, with all folders on
the way, and that has a language of the plan. The files come in the order of their names, and each is
described by what it holds alone. What is ignored may be anything; the filter of a plan is one case.
-/
namespace Foldmark

lemma Plan.keepsLanguage_iff {plan : Plan} {path : Path} :
    plan.keepsLanguage path = true ↔
      ∃ language, path.language? = some language ∧
        ∀ languages, plan.languages = some languages → language ∈ languages := by
  unfold keepsLanguage
  cases path.language? with
  | none => simp
  | some language => cases plan.languages <;> simp

namespace Survey

/-- Whether a survey takes what stands at the names `rest` below its root, where the root stands at
`names`. -/
structure Admits (volume : Volume) (plan : Plan) (ignores : Path → Bool → Bool)
    (names rest : List (List UInt8)) : Prop where
  below : rest ≠ []
  leaf : volume.HasLeaf (names ++ rest)
  kept : ignores (plan.root.joinAll rest) false = false
  ways : Path.IsOpen (ignores · true) plan.root rest
  language : ∃ language, (plan.root.joinAll rest).language? = some language ∧
    ∀ languages, plan.languages = some languages → language ∈ languages

/-- The text that octets spell. -/
def textOf (octets : List UInt8) : Except Trouble String :=
  match Text.Utf8.decode? octets with
  | some text => .ok (String.ofList text)
  | none => .error .notText

/-- What is read at the names below the root: a file is read where it stands, a link is followed. -/
def contentAt (volume : Volume) (root : Path) (names rest : List (List UInt8)) :
    Except Trouble String :=
  match volume.node? (names ++ rest) with
  | some (.file octets) => textOf octets
  | _ => volume.readText (root.joinAll rest)

/-- What a survey says about the names `rest` below its root. -/
structure Describes (parser : Comment.Parser) (volume : Volume) (plan : Plan)
    (names rest : List (List UInt8)) (file : SourceFile) : Prop where
  path : file.path = ⟨Path.joinSegments rest⟩
  location : file.location = plan.root.joinAll rest
  language : (plan.root.joinAll rest).language? = some file.language
  text : ∀ text outline, contentAt volume plan.root names rest = .ok text →
    Outline.ofSource parser plan.settings file.language text = .ok outline →
      file.parsed = true ∧ file.problem = none ∧ file.lineCount = (Text.lines text.toList).length ∧
        file.outline = outline
  unparsed : ∀ text fault, contentAt volume plan.root names rest = .ok text →
    Outline.ofSource parser plan.settings file.language text = .error fault →
      file.parsed = false ∧ file.problem = some fault.message ∧
        file.lineCount = (Text.lines text.toList).length ∧ file.outline = {}
  trouble : ∀ trouble, contentAt volume plan.root names rest = .error trouble →
    file.parsed = false ∧ file.problem = some trouble.message ∧ file.lineCount = 0 ∧
      file.outline = {}

section

variable {volume : Volume} {plan : Plan} {ignores : Path → Bool → Bool}
variable {names rest : List (List UInt8)}

lemma Admits.isName (h : Admits volume plan ignores names rest) : ∀ name ∈ rest, IsName name :=
  Volume.isName_of_hasLeaf h.leaf

/-! ## The paths of a survey -/

lemma mem_paths_iff (hroot : volume.place false plan.root = .ok ⟨names, some .folder⟩)
    {path : Path} :
    path ∈ paths volume plan ignores ↔
      ∃ rest, Admits volume plan ignores names rest ∧ plan.root.joinAll rest = path := by
  have hfiles : ∀ prunes, volume.filesAt plan.root prunes = volume.filesIn plan.root names prunes :=
    fun prunes => by simp [Volume.filesAt, hroot]
  simp only [paths, hfiles, List.mem_mergeSort, List.mem_filter, Volume.mem_filesIn_iff,
    Bool.and_eq_true, Bool.not_eq_true', Plan.keepsLanguage_iff]
  constructor
  · rintro ⟨⟨rest, hne, hleaf, hways, rfl⟩, hkept, hlanguage⟩
    exact ⟨rest, ⟨hne, hleaf, hkept, hways, hlanguage⟩, rfl⟩
  · rintro ⟨rest, h, rfl⟩
    exact ⟨⟨rest, h.below, h.leaf, h.ways, rfl⟩, h.kept, h.language⟩

lemma nodup_paths (hroot : volume.place false plan.root = .ok ⟨names, some .folder⟩)
    (ignores : Path → Bool → Bool) : (paths volume plan ignores).Nodup := by
  have hoctets := (Volume.place_eq_ok hroot).1
  simp only [paths, Volume.filesAt, hroot, Volume.filesIn]
  rw [(List.mergeSort_perm _ _).nodup_iff]
  exact ((volume.isTree_under names).nodup_visit hoctets).filter _

lemma pairwise_paths (volume : Volume) (plan : Plan) (ignores : Path → Bool → Bool) :
    (paths volume plan ignores).Pairwise fun a b => a.le b = true :=
  List.pairwise_mergeSort Path.le_trans Path.le_total _

lemma exists_map_eq {α β : Type} {p : α → Prop} {f : α → β} {l : List β}
    (h : ∀ b ∈ l, ∃ a, p a ∧ f a = b) : ∃ k : List α, (∀ a ∈ k, p a) ∧ k.map f = l := by
  induction l with
  | nil => exact ⟨[], by simp, rfl⟩
  | cons b l ih =>
    obtain ⟨a, ha, rfl⟩ := h b List.mem_cons_self
    obtain ⟨k, hk, rfl⟩ := ih fun b hb => h b (List.mem_cons_of_mem _ hb)
    exact ⟨a :: k, List.forall_mem_cons.mpr ⟨ha, hk⟩, rfl⟩

/-- The paths of a survey are those of the admitted names, in the order of the names. -/
theorem exists_paths_eq (hroot : volume.place false plan.root = .ok ⟨names, some .folder⟩)
    (ignores : Path → Bool → Bool) :
    ∃ rests : List (List (List UInt8)), rests.Pairwise (· < ·) ∧
      (∀ rest, rest ∈ rests ↔ Admits volume plan ignores names rest) ∧
      rests.map plan.root.joinAll = paths volume plan ignores := by
  have hoctets := (Volume.place_eq_ok hroot).1
  obtain ⟨rests, hadmits, hrests⟩ := exists_map_eq fun path => (mem_paths_iff hroot).mp
  refine ⟨rests, ?_, fun rest => ⟨hadmits rest, fun hrest => ?_⟩, hrests⟩
  · -- Different names in the order of their paths are in the strict order of names.
    have hle := pairwise_paths volume plan ignores
    have hne := nodup_paths hroot ignores
    rw [← hrests] at hle hne
    refine ((List.pairwise_map.mp hle).and (List.pairwise_map.mp hne)).imp_of_mem ?_
    intro a b ha hb ⟨hab, hdiffer⟩
    rw [Path.le_joinAll_iff (hadmits a ha).isName (hadmits b hb).isName hoctets] at hab
    refine (List.le_iff_lt_or_eq.mp hab).resolve_right fun heq => hdiffer ?_
    rw [heq]
  · have hpath := (mem_paths_iff hroot).mpr ⟨rest, hrest, rfl⟩
    rw [← hrests, List.mem_map] at hpath
    obtain ⟨found, hfound, heq⟩ := hpath
    obtain rfl := Path.joinAll_injective (hadmits found hfound).isName hrest.isName hoctets heq
    exact hfound

lemma nodup_of_pairwise_lt {rests : List (List (List UInt8))} (h : rests.Pairwise (· < ·)) :
    rests.Nodup := by
  refine List.Pairwise.imp ?_ h
  intro a b hlt heq
  subst heq
  exact List.lt_irrefl a hlt

/-- Names in strict order are told by which there are. -/
lemma eq_of_mem_iff {a b : List (List (List UInt8))} (ha : a.Pairwise (· < ·))
    (hb : b.Pairwise (· < ·)) (h : ∀ rest, rest ∈ a ↔ rest ∈ b) : a = b := by
  have hperm : a.Perm b :=
    (List.perm_ext_iff_of_nodup (nodup_of_pairwise_lt ha) (nodup_of_pairwise_lt hb)).mpr h
  refine hperm.eq_of_pairwise (fun x y _ _ hxy hyx => ?_) ha hb
  exact absurd (List.lt_trans hxy hyx) (List.lt_irrefl x)

lemma paths_eq (hroot : volume.place false plan.root = .ok ⟨names, some .folder⟩)
    {rests : List (List (List UInt8))} (hsorted : rests.Pairwise (· < ·))
    (hmem : ∀ rest, rest ∈ rests ↔ Admits volume plan ignores names rest) :
    paths volume plan ignores = rests.map plan.root.joinAll := by
  obtain ⟨found, hfound, hadmits, hpaths⟩ := exists_paths_eq hroot ignores
  rw [← hpaths, eq_of_mem_iff hfound hsorted fun rest => (hadmits rest).trans (hmem rest).symm]

/-! ## The files of a survey -/

lemma readText_joinAll (hroot : volume.place false plan.root = .ok ⟨names, some .folder⟩)
    (hne : rest ≠ []) :
    volume.readText (plan.root.joinAll rest) = contentAt volume plan.root names rest := by
  unfold contentAt
  split
  · rename_i octets hnode
    have hfile := (Volume.node?_eq_some_iff (by simp)).mp hnode
    rw [Volume.readText, Volume.read_joinAll hroot hne hfile, textOf]
    simp only [bind, Except.bind]
    cases Text.Utf8.decode? octets <;> rfl
  · rfl

/-- The file at admitted names says what is read there. -/
lemma describes_fileOf (parser : Comment.Parser)
    (hroot : volume.place false plan.root = .ok ⟨names, some .folder⟩)
    (h : Admits volume plan ignores names rest) {language : Language}
    (hlanguage : (plan.root.joinAll rest).language? = some language) :
    Describes parser volume plan names rest
      (fileOf parser volume plan (plan.root.joinAll rest) language) := by
  have hoctets := (Volume.place_eq_ok hroot).1
  have hbelow := Path.below?_joinAll h.isName h.below hoctets
  rw [fileOf, readText_joinAll hroot h.below, hbelow]
  cases hcontent : contentAt volume plan.root names rest with
  | error trouble => constructor <;> simp_all
  | ok text =>
    have htext : ∀ {read}, contentAt volume plan.root names rest = .ok read → read = text :=
      fun hread => Except.ok.inj (hread.symm.trans hcontent)
    have hread : ∀ {trouble}, contentAt volume plan.root names rest ≠ .error trouble :=
      fun htrouble => nomatch htrouble.symm.trans hcontent
    have hlines : Text.lineCount text.toList = (Text.lines text.toList).length := by
      simp [Text.lineCount, Text.lines]
    cases houtline : Outline.ofSource parser plan.settings language text with
    | error fault =>
      simp only [houtline]
      refine ⟨rfl, rfl, hlanguage, ?_, ?_, fun _ htrouble => absurd htrouble hread⟩
      · rintro _ outline hfound hsource
        rw [htext hfound, houtline] at hsource
        cases hsource
      · rintro _ cause hfound hsource
        rw [htext hfound, houtline] at hsource
        exact ⟨rfl, by rw [Except.error.inj hsource], by rw [htext hfound, hlines], rfl⟩
    | ok outline =>
      simp only [houtline]
      refine ⟨rfl, rfl, hlanguage, ?_, ?_, fun _ htrouble => absurd htrouble hread⟩
      · rintro _ found hfound hsource
        rw [htext hfound, houtline] at hsource
        exact ⟨rfl, rfl, by rw [htext hfound, hlines], Except.ok.inj hsource⟩
      · rintro _ fault hfound hsource
        rw [htext hfound, houtline] at hsource
        cases hsource

theorem exists_describes_filesOf (parser : Comment.Parser)
    (hroot : volume.place false plan.root = .ok ⟨names, some .folder⟩)
    (ignores : Path → Bool → Bool) :
    ∃ rests : List (List (List UInt8)), rests.Pairwise (· < ·) ∧
      (∀ rest, rest ∈ rests ↔ Admits volume plan ignores names rest) ∧
      List.Forall₂ (Describes parser volume plan names) rests
        (filesOf parser volume plan ignores) := by
  obtain ⟨rests, hsorted, hmem, hpaths⟩ := exists_paths_eq hroot ignores
  refine ⟨rests, hsorted, hmem, ?_⟩
  rw [filesOf, ← hpaths, List.filterMap_map]
  have hall : ∀ rest ∈ rests, Admits volume plan ignores names rest := fun rest => (hmem rest).mp
  clear hsorted hmem hpaths
  induction rests with
  | nil => exact .nil
  | cons rest rests ih =>
    have hrest := hall rest List.mem_cons_self
    obtain ⟨language, hlanguage, -⟩ := hrest.language
    rw [List.filterMap_cons_some (b := fileOf parser volume plan (plan.root.joinAll rest) language)
      (by simp [hlanguage])]
    exact .cons (describes_fileOf parser hroot hrest hlanguage)
      (ih fun rest hmem => hall rest (List.mem_cons_of_mem _ hmem))

lemma exists_mem_filesOf (parser : Comment.Parser)
    (hroot : volume.place false plan.root = .ok ⟨names, some .folder⟩)
    (h : Admits volume plan ignores names rest) :
    ∃ file ∈ filesOf parser volume plan ignores, Describes parser volume plan names rest file := by
  obtain ⟨language, hlanguage, -⟩ := h.language
  have hpath := (mem_paths_iff hroot).mpr ⟨rest, h, rfl⟩
  exact ⟨_, List.mem_filterMap.mpr ⟨_, hpath, by rw [hlanguage, Option.map_some]⟩,
    describes_fileOf parser hroot h hlanguage⟩

/-! ## The survey -/

/-- How a survey ends that finds the files: with their tally, unless there are no threads for it or a
counter of the tally is too small. -/
def ended (tools : Tools) (plan : Plan) (files : List SourceFile) (info : Nat → RunInfo) :
    Except Fault (Except Overflow Survey) :=
  (tools.start plan.threads).map fun _ =>
    (Tally.ofFiles files).map fun tally => ⟨plan.root, files, tally, info files.length⟩

/-- The survey of a plan ends with the files. -/
def Finds (tools : Tools) (volume : Volume) (plan : Plan) (files : List SourceFile) : Prop :=
  ∀ info, ofPlan tools volume plan info = ended tools plan files info

lemma conduct_eq (tools : Tools) (volume : Volume) (plan : Plan) (ignores : Path → Bool → Bool)
    (info : Nat → RunInfo) :
    conduct tools volume plan ignores info =
      ended tools plan (filesOf tools.parser volume plan ignores) info := by
  rw [conduct, ended]
  cases tools.start plan.threads <;> rfl

lemma finds_filesOf (tools : Tools) {filter : Ignore.Filter}
    (h : filterOf volume plan = .ok filter) :
    Finds tools volume plan (filesOf tools.parser volume plan filter.ignores) := by
  intro info
  rw [ofPlan, h]
  exact conduct_eq tools volume plan filter.ignores info

/-- What a plan ignores that leaves nothing out but dependencies. -/
def ignoresDependencies : Path → Bool → Bool :=
  Ignore.Filter.ignores ⟨none, Ignore.dependencyGlobs⟩

/-- A plan that leaves nothing out but dependencies, in a volume without its ignore file. -/
structure IsBare (volume : Volume) (plan : Plan) : Prop where
  settings : plan.settings.check = .ok ()
  ignoreFile : volume.has
    (plan.ignoreFile.getD (plan.root.join (Path.ofString ".gitignore").octets)) = false
  patterns : plan.patterns = []
  dependencies : plan.includeDependencies = false

lemma IsBare.filterOf_eq (h : IsBare volume plan) :
    filterOf volume plan = .ok ⟨none, Ignore.dependencyGlobs⟩ := by
  have hcustom : plan.patterns.mapM Ignore.globOf = .ok [] := by
    rw [h.patterns]
    rfl
  rw [filterOf, h.settings, Ignore.Filter.ofPlan_eq_ok h.ignoreFile hcustom h.dependencies,
    List.append_nil]

lemma IsBare.finds (h : IsBare volume plan) (tools : Tools) :
    Finds tools volume plan (filesOf tools.parser volume plan ignoresDependencies) :=
  finds_filesOf tools h.filterOf_eq

/-- A survey takes exactly the admitted files and links, once each and in the order of their names,
and says about each what is read there. This is so whatever is ignored, and of a plan with what its
filter ignores. -/
theorem finds_admitted (tools : Tools) (ignores : Path → Bool → Bool)
    (hroot : volume.place false plan.root = .ok ⟨names, some .folder⟩) :
    ∃ files, (∀ info, conduct tools volume plan ignores info = ended tools plan files info) ∧
      (∀ filter, filterOf volume plan = .ok filter → filter.ignores = ignores →
        Finds tools volume plan files) ∧
      ∃ rests : List (List (List UInt8)), rests.Pairwise (· < ·) ∧
        (∀ rest, rest ∈ rests ↔ Admits volume plan ignores names rest) ∧
        List.Forall₂ (Describes tools.parser volume plan names) rests files := by
  refine ⟨filesOf tools.parser volume plan ignores, conduct_eq tools volume plan ignores, ?_,
    exists_describes_filesOf tools.parser hroot ignores⟩
  rintro filter hfilter rfl
  exact finds_filesOf tools hfilter

end

/-! ## A link -/

/-- The plan for a root with nothing else asked for. -/
def planAt (root : String) : Plan := { root := Path.ofString root }

def namesOf (path : String) : List (List UInt8) := Path.segments (Path.ofString path).octets

section

variable {volume : Volume} {root : String}

lemma place_planAt (hname : IsName (Path.ofString root).octets) (hhere : volume.here = [])
    (hfolder : volume.node? (namesOf root) = some .folder) :
    volume.place false (planAt root).root = .ok ⟨namesOf root, some .folder⟩ := by
  have hnames : namesOf root = volume.here ++ [(Path.ofString root).octets] := by
    rw [namesOf, Path.segments_of_not_mem hname.slash_not_mem, hhere, List.nil_append]
  rw [hnames] at hfolder ⊢
  exact Volume.place_of_isName hname hfolder false

lemma isBare_planAt
    (hroot : volume.place false (planAt root).root = .ok ⟨namesOf root, some .folder⟩)
    (hfree : volume.node? (namesOf root ++ [(Path.ofString ".gitignore").octets]) = none) :
    IsBare volume (planAt root) where
  settings := show Settings.check {} = .ok () by decide
  ignoreFile := Volume.has_join_eq_false hroot (by decide) hfree
  patterns := rfl
  dependencies := rfl

end

/-- A folder with a file and a link to it. -/
def linked : Volume :=
  .ofNodes [] [(namesOf "p/a.py", .file (Path.ofString "# region\n# endregion\n").octets),
    (namesOf "p/l.py", .link (Path.ofString "a.py"))]

lemma place_linked :
    linked.place false (planAt "p").root = .ok ⟨namesOf "p", some .folder⟩ :=
  place_planAt (by decide) rfl (by decide +kernel)

lemma isBare_linked : IsBare linked (planAt "p") :=
  isBare_planAt place_linked (by decide +kernel)

theorem finds_admitted_linked :
    filterOf linked (planAt "p") = .ok ⟨none, Ignore.dependencyGlobs⟩ ∧
    linked.place false (planAt "p").root = .ok ⟨namesOf "p", some .folder⟩ ∧
    ∃ files, Finds .own linked (planAt "p") files ∧
      ∃ rests : List (List (List UInt8)), rests.Pairwise (· < ·) ∧
        (∀ rest, rest ∈ rests ↔
          Admits linked (planAt "p") ignoresDependencies (namesOf "p") rest) ∧
        List.Forall₂ (Describes Comment.scanner linked (planAt "p") (namesOf "p")) rests files := by
  obtain ⟨files, -, hfinds, hrests⟩ := finds_admitted .own ignoresDependencies place_linked
  exact ⟨isBare_linked.filterOf_eq, place_linked, files, hfinds _ isBare_linked.filterOf_eq rfl,
    hrests⟩

lemma admits_link :
    Admits linked (planAt "p") ignoresDependencies (namesOf "p") (namesOf "l.py") where
  below := by decide
  leaf := ⟨.link (Path.ofString "a.py"), by decide, by decide +kernel⟩
  kept := by decide +kernel
  ways := Path.isOpen_cons_iff.mpr ⟨by decide +kernel, Path.isOpen_nil⟩
  language := ⟨.python, by decide +kernel, by simp [planAt]⟩

/-- The files of a survey need not be files: the link is one of them. -/
theorem finds_link :
    ∃ files, Finds .own linked (planAt "p") files ∧
      ∃ file ∈ files, file.path = Path.ofString "l.py" ∧
        linked.node? (namesOf "p/l.py") = some (.link (Path.ofString "a.py")) := by
  obtain ⟨file, hfile, hdescribes⟩ := exists_mem_filesOf Comment.scanner place_linked admits_link
  refine ⟨_, isBare_linked.finds .own, file, hfile, ?_, by decide +kernel⟩
  rw [hdescribes.path]
  decide

end Survey

end Foldmark

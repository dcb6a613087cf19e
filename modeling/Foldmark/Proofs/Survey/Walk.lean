import Foldmark.Proofs.Volume.Resolution
import Foldmark.Survey.Scan
import Mathlib.Data.List.Nodup

/-!
# Visiting a folder

A visit goes from folder to folder and turns back at folders that are pruned. It finds the files and
links with no pruned folder above them, and each of them once.
-/
namespace Foldmark

/-- No folder on the way from `folder` along the names is pruned, `folder` itself included. What the
names lead to is not asked for. -/
def Path.IsOpen (prunes : Path → Bool) (folder : Path) (names : List (List UInt8)) : Prop :=
  ∀ lead, lead <+: names → lead ≠ names → prunes (folder.joinAll lead) = false

namespace Path

variable {prunes : Path → Bool} {folder : Path}

lemma isOpen_nil : IsOpen prunes folder [] :=
  fun _ hlead hne => absurd (List.prefix_nil.mp hlead) hne

lemma isOpen_cons_iff {name : List UInt8} {rest : List (List UInt8)} :
    IsOpen prunes folder (name :: rest) ↔
      prunes folder = false ∧ IsOpen prunes (folder.join name) rest := by
  constructor
  · intro h
    refine ⟨h [] List.nil_prefix (by simp), fun lead hlead hne => ?_⟩
    exact h (name :: lead) (List.cons_prefix_cons.mpr ⟨rfl, hlead⟩) (by simpa using hne)
  · rintro ⟨hfolder, hrest⟩ lead hlead hne
    cases lead with
    | nil => exact hfolder
    | cons first lead =>
      obtain ⟨rfl, hinner⟩ := List.cons_prefix_cons.mp hlead
      exact hrest lead hinner (by simpa using hne)

end Path

namespace Listing

/-- A listing in which nothing lies below a file or a link. -/
structure IsTree (listing : Listing) : Prop where
  isName : ∀ entry ∈ listing, ∀ name ∈ entry.1, IsName name
  eq_of_isPrefix : ∀ a ∈ listing, ∀ b ∈ listing, a.1 <+: b.1 → a.2 ≠ .folder → a = b

/-- Whether a file or a link is listed at the names. -/
def HasLeaf (listing : Listing) (names : List (List UInt8)) : Prop :=
  ∃ node, node ≠ .folder ∧ (names, node) ∈ listing

variable {listing : Listing} {prunes : Path → Bool} {folder path : Path}

lemma IsTree.under (tree : listing.IsTree) (lead : List (List UInt8)) :
    IsTree (listing.under lead) where
  isName entry hentry name hname :=
    tree.isName _ (mem_under_iff.mp hentry) name (List.mem_append_right _ hname)
  eq_of_isPrefix a ha b hb hlead hleaf := by
    have heq := tree.eq_of_isPrefix _ (mem_under_iff.mp ha) _ (mem_under_iff.mp hb)
      ((List.prefix_append_right_inj lead).mpr hlead) hleaf
    simpa [Prod.ext_iff] using heq

lemma hasLeaf_under_iff {lead rest : List (List UInt8)} :
    HasLeaf (listing.under lead) rest ↔ listing.HasLeaf (lead ++ rest) := by
  simp [HasLeaf, mem_under_iff]

lemma nodup_eraseDups {α : Type} [BEq α] [LawfulBEq α] (l : List α) : l.eraseDups.Nodup := by
  match l with
  | [] => simp
  | a :: l =>
    rw [List.eraseDups_cons, List.nodup_cons]
    refine ⟨?_, nodup_eraseDups _⟩
    simp [List.mem_eraseDups]
  termination_by l.length
  decreasing_by exact Nat.lt_succ_of_le (List.length_filter_le _ _)

/-! ## One entry of a folder -/

/-- What a visit finds at one name of a folder. -/
def branch (prunes : Path → Bool) (folder : Path) (listing : Listing) (name : List UInt8) :
    List Path :=
  match (listing.under [name]).lookup [] with
  | some (.file _) => [folder.join name]
  | some (.link _) => [folder.join name]
  | _ => visit prunes (folder.join name) (listing.under [name])

lemma visit_of_pruned (h : prunes folder = true) : visit prunes folder listing = [] := by
  rw [visit, if_pos h]

lemma visit_of_not_pruned (h : prunes folder = false) :
    visit prunes folder listing = listing.entryNames.flatMap (branch prunes folder listing) := by
  conv_rhs => rw [← List.attach_map_subtype_val listing.entryNames, List.flatMap_map]
  rw [visit, h, if_neg Bool.false_ne_true]
  rfl

/-- A file or a link is alone where it is, so looking there finds it. -/
lemma IsTree.lookup_nil (tree : listing.IsTree) {node : Node} (hleaf : node ≠ .folder)
    (h : ([], node) ∈ listing) : listing.lookup [] = some node := by
  cases listing with
  | nil => simp at h
  | cons entry listing =>
    obtain rfl : ([], node) = entry :=
      tree.eq_of_isPrefix _ h _ List.mem_cons_self List.nil_prefix hleaf
    simp

lemma mem_of_lookup_nil {node : Node} (h : listing.lookup [] = some node) :
    ([], node) ∈ listing := by
  induction listing with
  | nil => simp at h
  | cons entry listing ih =>
    obtain ⟨names, found⟩ := entry
    rw [List.lookup_cons] at h
    cases names with
    | nil => simp_all
    | cons name names => exact List.mem_cons_of_mem _ (ih (by simpa using h))

/-- A file or a link is a branch of its own. -/
lemma IsTree.branch_of_hasLeaf (tree : listing.IsTree) {name : List UInt8}
    (h : listing.HasLeaf [name]) : branch prunes folder listing name = [folder.join name] := by
  obtain ⟨node, hleaf, hnode⟩ := h
  have hlookup := (tree.under [name]).lookup_nil hleaf (mem_under_iff.mpr hnode)
  cases node with
  | folder => exact absurd rfl hleaf
  | file => simp [branch, hlookup]
  | link => simp [branch, hlookup]

/-- What is neither is visited. -/
lemma branch_of_not_hasLeaf {name : List UInt8} (h : ¬ listing.HasLeaf [name]) :
    branch prunes folder listing name =
      visit prunes (folder.join name) (listing.under [name]) := by
  unfold branch
  split
  · rename_i hlookup
    exact absurd ⟨_, by simp, mem_under_iff.mp (mem_of_lookup_nil hlookup)⟩ h
  · rename_i hlookup
    exact absurd ⟨_, by simp, mem_under_iff.mp (mem_of_lookup_nil hlookup)⟩ h
  · rfl

lemma IsTree.not_hasLeaf_cons (tree : listing.IsTree) {name : List UInt8}
    {rest : List (List UInt8)} (h : listing.HasLeaf [name]) (hne : rest ≠ []) :
    ¬ listing.HasLeaf (name :: rest) := by
  obtain ⟨node, hleaf, hnode⟩ := h
  rintro ⟨found, -, hfound⟩
  have heq := tree.eq_of_isPrefix _ hnode _ hfound (List.cons_prefix_cons.mpr ⟨rfl, List.nil_prefix⟩)
    hleaf
  simp [hne] at heq

/-! ## The whole visit -/

/-- A visit finds the files and links with no pruned folder above them. -/
theorem IsTree.mem_visit_iff (tree : listing.IsTree) :
    path ∈ visit prunes folder listing ↔
      ∃ names, names ≠ [] ∧ listing.HasLeaf names ∧ Path.IsOpen prunes folder names ∧
        folder.joinAll names = path := by
  induction folder, listing using visit.induct prunes with
  | case1 folder listing hpruned =>
    simp only [visit_of_pruned hpruned, List.not_mem_nil, false_iff, not_exists]
    rintro (_ | ⟨name, rest⟩) ⟨hne, -, hopen, -⟩
    · exact hne rfl
    · simp [(Path.isOpen_cons_iff.mp hopen).1] at hpruned
  | case2 folder listing hopen ih =>
    rw [Bool.not_eq_true] at hopen
    rw [visit_of_not_pruned hopen, List.mem_flatMap]
    constructor
    · rintro ⟨name, hname, hpath⟩
      by_cases hleaf : listing.HasLeaf [name]
      · rw [tree.branch_of_hasLeaf hleaf, List.mem_singleton] at hpath
        exact ⟨[name], by simp, hleaf, Path.isOpen_cons_iff.mpr ⟨hopen, Path.isOpen_nil⟩,
          hpath.symm⟩
      · rw [branch_of_not_hasLeaf hleaf, ih name hname (tree.under _)] at hpath
        obtain ⟨rest, -, hrest, hways, rfl⟩ := hpath
        exact ⟨name :: rest, by simp, hasLeaf_under_iff.mp hrest,
          Path.isOpen_cons_iff.mpr ⟨hopen, hways⟩, rfl⟩
    · rintro ⟨_ | ⟨name, rest⟩, hne, hleaf, hways, rfl⟩
      · exact absurd rfl hne
      have hname : name ∈ listing.entryNames := by
        obtain ⟨node, -, hnode⟩ := hleaf
        exact mem_entryNames_iff.mpr ⟨rest, node, hnode⟩
      refine ⟨name, hname, ?_⟩
      by_cases hone : listing.HasLeaf [name]
      · have hrest : rest = [] := by
          by_contra hrest
          exact tree.not_hasLeaf_cons hone hrest hleaf
        simp [tree.branch_of_hasLeaf hone, hrest]
      · have hrest : rest ≠ [] := fun hrest => hone (hrest ▸ hleaf)
        rw [branch_of_not_hasLeaf hone, ih name hname (tree.under _)]
        exact ⟨rest, hrest, hasLeaf_under_iff.mpr hleaf, (Path.isOpen_cons_iff.mp hways).2, rfl⟩

/-- What a branch finds begins with its name. -/
lemma IsTree.exists_of_mem_branch (tree : listing.IsTree) {name : List UInt8}
    (h : path ∈ branch prunes folder listing name) :
    ∃ rest, listing.HasLeaf (name :: rest) ∧ folder.joinAll (name :: rest) = path := by
  by_cases hleaf : listing.HasLeaf [name]
  · rw [tree.branch_of_hasLeaf hleaf, List.mem_singleton] at h
    exact ⟨[], hleaf, h.symm⟩
  · rw [branch_of_not_hasLeaf hleaf, (tree.under _).mem_visit_iff] at h
    obtain ⟨rest, -, hrest, -, rfl⟩ := h
    exact ⟨rest, hasLeaf_under_iff.mp hrest, rfl⟩

lemma IsTree.isName_of_hasLeaf (tree : listing.IsTree) {names : List (List UInt8)}
    (h : listing.HasLeaf names) : ∀ name ∈ names, IsName name := by
  obtain ⟨node, -, hnode⟩ := h
  exact tree.isName _ hnode

/-- A visit finds nothing twice. -/
theorem IsTree.nodup_visit (tree : listing.IsTree) (hf : folder.octets ≠ []) :
    (visit prunes folder listing).Nodup := by
  induction folder, listing using visit.induct prunes with
  | case1 folder listing hpruned => simp [visit_of_pruned hpruned]
  | case2 folder listing hopen ih =>
    rw [Bool.not_eq_true] at hopen
    rw [visit_of_not_pruned hopen, List.nodup_flatMap]
    refine ⟨fun name hname => ?_, ?_⟩
    · by_cases hleaf : listing.HasLeaf [name]
      · simp [tree.branch_of_hasLeaf hleaf]
      · rw [branch_of_not_hasLeaf hleaf]
        obtain ⟨rest, node, hnode⟩ := mem_entryNames_iff.mp hname
        have hisName : IsName name := tree.isName _ hnode name List.mem_cons_self
        exact ih name hname (tree.under _)
          (Path.joinAll_ne_nil (List.forall_mem_singleton.mpr hisName) hf)
    · -- Branches at different names are apart, since a path tells its names.
      refine (nodup_eraseDups _).imp fun hne path ha hb => ?_
      obtain ⟨rest, hleaf, hpath⟩ := tree.exists_of_mem_branch ha
      obtain ⟨rest', hleaf', hpath'⟩ := tree.exists_of_mem_branch hb
      have heq := Path.joinAll_injective (tree.isName_of_hasLeaf hleaf)
        (tree.isName_of_hasLeaf hleaf') hf (hpath.trans hpath'.symm)
      exact hne (List.cons.inj heq).1

end Listing

namespace Volume

variable {volume : Volume} {root path : Path} {names : List (List UInt8)} {prunes : Path → Bool}

lemma isTree_under (volume : Volume) (names : List (List UInt8)) :
    Listing.IsTree (Listing.under volume.nodes names) :=
  Listing.IsTree.under ⟨fun _ h => volume.sound.isName h,
    fun _ ha _ hb => volume.sound.eq_of_isPrefix ha hb⟩ names

/-- Whether a file or a link is at the names. -/
def HasLeaf (volume : Volume) (names : List (List UInt8)) : Prop :=
  ∃ node, node ≠ .folder ∧ volume.node? names = some node

lemma hasLeaf_under_nodes_iff {rest : List (List UInt8)} :
    Listing.HasLeaf (Listing.under volume.nodes names) rest ↔ volume.HasLeaf (names ++ rest) := by
  rw [Listing.hasLeaf_under_iff]
  exact exists_congr fun node => and_congr_right fun hleaf => (node?_eq_some_iff hleaf).symm

lemma isName_of_hasLeaf {rest : List (List UInt8)} (h : volume.HasLeaf (names ++ rest)) :
    ∀ name ∈ rest, IsName name :=
  (volume.isTree_under names).isName_of_hasLeaf (hasLeaf_under_nodes_iff.mpr h)

theorem mem_filesIn_iff :
    path ∈ volume.filesIn root names prunes ↔
      ∃ rest, rest ≠ [] ∧ volume.HasLeaf (names ++ rest) ∧ Path.IsOpen prunes root rest ∧
        root.joinAll rest = path := by
  simp only [filesIn, (volume.isTree_under names).mem_visit_iff, hasLeaf_under_nodes_iff]

end Volume

end Foldmark

import Foldmark.Proofs.Glob.Matching
import Foldmark.Proofs.Path.Display
import Mathlib.Data.List.Infix

/-!
# Dependencies and generated code

The globs for dependencies look at a whole path. They match a path through a folder with one of
certain names, and a path with one of two endings. For the paths below a root it is told from this
which of them are left out together with a folder above them (`forall_not_isDependency_iff`): all of
them where the root has such a name in it, and otherwise those with such names below the root.
-/
namespace Foldmark

namespace Ignore

/-- The folders that hold dependencies or build results. -/
def dependencyFolders : List String :=
  ["node_modules", ".venv", "venv", "__pycache__", "dist", "build", ".git", "target"]

/-- The endings of generated files. -/
def generatedEndings : List String := [".min.js", ".bundle.js"]

def dependencyGlobs : List Glob :=
  dependencyFolders.map Glob.inFolder ++ generatedEndings.map Glob.withEnding

lemma mapM_globOf_dependencies : dependencies.mapM globOf = .ok dependencyGlobs := by
  cbv

/-- The filter of a plan with no ignore file. -/
lemma Filter.ofPlan_eq_ok {volume : Volume} {plan : Plan} {custom : List Glob}
    (hfile : volume.has (plan.ignoreFile.getD (plan.root.join (Path.ofString ".gitignore").octets)) =
      false)
    (hcustom : plan.patterns.mapM globOf = .ok custom) (hknown : plan.includeDependencies = false) :
    Filter.ofPlan volume plan = .ok ⟨none, dependencyGlobs ++ custom⟩ := by
  simp only [Filter.ofPlan, hfile, hcustom, hknown, mapM_globOf_dependencies]
  rfl

end Ignore

namespace Path

open Ignore Text.Utf8

def IsDependencyFolder (segment : List UInt8) : Prop :=
  ∃ folder ∈ dependencyFolders, (ofString folder).octets = segment

def IsGenerated (octets : List UInt8) : Prop :=
  ∃ ending ∈ generatedEndings, (ofString ending).octets <:+ octets

instance (segment : List UInt8) : Decidable (IsDependencyFolder segment) :=
  inferInstanceAs (Decidable (∃ folder ∈ dependencyFolders, _))

instance (octets : List UInt8) : Decidable (IsGenerated octets) :=
  inferInstanceAs (Decidable (∃ ending ∈ generatedEndings, _))

/-- Whether a path goes through a folder of dependencies or is one of generated code. -/
def IsDependency (path : Path) : Prop :=
  (∃ segment ∈ (segments path.octets).dropLast, IsDependencyFolder segment) ∨
    IsGenerated path.octets

/-- Whether a name or an ending is plain text without a slash. -/
def isPlainPart (part : String) : Bool :=
  (ofString part).octets.all fun b => b != slash && decide (IsPlain b)

lemma of_isPlainPart {part : String} (h : isPlainPart part = true) :
    slash ∉ (ofString part).octets ∧ ∀ b ∈ (ofString part).octets, IsPlain b := by
  simp only [isPlainPart, List.all_eq_true, Bool.and_eq_true, bne_iff_ne, decide_eq_true_eq] at h
  exact ⟨fun hslash => (h slash hslash).1 rfl, fun b hb => (h b hb).2⟩

lemma isPlainPart_dependencyFolder : ∀ folder ∈ dependencyFolders, isPlainPart folder = true := by
  decide

lemma isPlainPart_generatedEnding : ∀ ending ∈ generatedEndings,
    (Glob.withEnding ending).readsName = false ∧ isPlainPart ending = true := by
  decide

/-- The globs for dependencies match the paths of dependencies. -/
theorem any_dependencyGlobs_iff {path : Path} :
    (dependencyGlobs.any fun glob => glob.accepts (encode path.display.toList)) = true ↔
      path.IsDependency := by
  have hfolder : ∀ folder ∈ dependencyFolders,
      ((Glob.inFolder folder).accepts (shown path.octets) = true ↔
        (ofString folder).octets ∈ (segments path.octets).dropLast) := by
    intro folder hfolder
    obtain ⟨hslash, hplain⟩ := of_isPlainPart (isPlainPart_dependencyFolder folder hfolder)
    rw [Glob.accepts_inFolder_iff, ← mem_dropLast_segments_iff hslash, segments_shown,
      ← List.map_dropLast, List.mem_map]
    simp [shown_eq_iff hplain]
  have hending : ∀ ending ∈ generatedEndings,
      ((Glob.withEnding ending).accepts (shown path.octets) = true ↔
        (ofString ending).octets <:+ path.octets) := by
    intro ending hending
    obtain ⟨hreads, hpart⟩ := isPlainPart_generatedEnding ending hending
    rw [Glob.accepts_withEnding_iff hreads, suffix_shown_iff (of_isPlainPart hpart).2]
  rw [encode_display, dependencyGlobs, List.any_append, Bool.or_eq_true, List.any_map, List.any_map,
    List.any_eq_true, List.any_eq_true, IsDependency]
  refine or_congr ?_ (exists_congr fun ending => and_congr_right fun h => hending ending h)
  constructor
  · rintro ⟨folder, hmem, haccepts⟩
    exact ⟨_, (hfolder folder hmem).mp haccepts, folder, hmem, rfl⟩
  · rintro ⟨_, hsegment, folder, hmem, rfl⟩
    exact ⟨folder, hmem, (hfolder folder hmem).mpr hsegment⟩

/-! ## Below a root -/

variable {root : Path} {rest : List (List UInt8)}

/-- Whether a root is one of dependencies, so that no path below it is anything else. -/
def IsExcludedRoot (root : Path) : Prop :=
  (∃ segment ∈ segments root.octets, IsDependencyFolder segment) ∨ IsGenerated root.octets

instance (root : Path) : Decidable (IsExcludedRoot root) := inferInstanceAs (Decidable (_ ∨ _))

/-- Whether names below a root lead through no folder of dependencies and to no generated code. -/
structure IsOwn (rest : List (List UInt8)) : Prop where
  folder : ∀ name ∈ rest.dropLast, ¬ IsDependencyFolder name
  generated : ∀ name ∈ rest, ¬ IsGenerated name

/-- An entry ends as its last name does. -/
lemma isGenerated_joinAll_concat {name : List UInt8} (h : ∀ n ∈ rest ++ [name], IsName n)
    (hroot : root.octets ≠ []) :
    IsGenerated (root.joinAll (rest ++ [name])).octets ↔ IsGenerated name := by
  have hfolder : (root.joinAll rest).octets ≠ [] :=
    joinAll_ne_nil (fun n hn => h n (List.mem_append_left _ hn)) hroot
  obtain ⟨front, hfront⟩ : ∃ front,
      (root.joinAll (rest ++ [name])).octets = front ++ slash :: name := by
    rw [joinAll_concat, octets_join (h name (by simp))]
    split_ifs with hend
    · obtain ⟨front, hlast⟩ := List.getLast?_eq_some_iff.mp (hend.resolve_left hfolder)
      exact ⟨front, by simp [hlast]⟩
    · exact ⟨_, rfl⟩
  rw [hfront]
  refine exists_congr fun ending => and_congr_right fun hending => ?_
  have hslash := (of_isPlainPart (isPlainPart_generatedEnding ending hending).2).1
  constructor
  · intro hsuffix
    rcases List.suffix_or_suffix_of_suffix hsuffix (List.suffix_append front (slash :: name)) with
      hs | hs
    · rcases List.suffix_cons_iff.mp hs with heq | hs
      · simp [heq] at hslash
      · exact hs
    · exact absurd (hs.subset List.mem_cons_self) hslash
  · intro hsuffix
    exact hsuffix.trans ((List.suffix_cons _ _).trans (List.suffix_append ..))

lemma isDependency_joinAll_concat {name : List UInt8} (h : ∀ n ∈ rest ++ [name], IsName n)
    (hroot : root.octets ≠ []) :
    (root.joinAll (rest ++ [name])).IsDependency ↔
      (∃ segment ∈ root.stem, IsDependencyFolder segment) ∨
        (∃ segment ∈ rest, IsDependencyFolder segment) ∨ IsGenerated name := by
  rw [IsDependency, segments_joinAll h (by simp), isGenerated_joinAll_concat h hroot,
    ← List.append_assoc, List.dropLast_concat]
  simp only [List.mem_append, or_and_right, exists_or, or_assoc]

lemma not_isDependencyFolder_nil : ¬ IsDependencyFolder [] := by
  decide

lemma exists_stem_iff (root : Path) :
    (∃ segment ∈ root.stem, IsDependencyFolder segment) ↔
      ∃ segment ∈ segments root.octets, IsDependencyFolder segment := by
  rcases root.segments_eq_stem with hs | hs
  · rw [hs]
  · simp [hs, or_and_right, exists_or, not_isDependencyFolder_nil]

/-- What is left out, itself or with a folder above it, is all below an excluded root and what is not
the project's own below others. -/
theorem forall_not_isDependency_iff (h : ∀ name ∈ rest, IsName name) (hne : rest ≠ [])
    (hroot : root.octets ≠ []) :
    (∀ lead, lead <+: rest → ¬ (root.joinAll lead).IsDependency) ↔
      ¬ root.IsExcludedRoot ∧ IsOwn rest := by
  constructor
  · intro hleads
    have hself : ¬ root.IsDependency := hleads [] List.nil_prefix
    obtain ⟨front, last, rfl⟩ := (List.eq_nil_or_concat' rest).resolve_left hne
    have hrest := hleads _ List.prefix_rfl
    rw [isDependency_joinAll_concat h hroot, exists_stem_iff] at hrest
    refine ⟨?_, ?_, ?_⟩
    · rintro (hsegment | hgenerated)
      · exact hrest (.inl hsegment)
      · exact hself (.inr hgenerated)
    · intro name hname hfolder
      rw [List.dropLast_concat] at hname
      exact hrest (.inr (.inl ⟨name, hname, hfolder⟩))
    · intro name hname hgenerated
      obtain ⟨before, after, hsplit⟩ := List.append_of_mem hname
      have hlead : before ++ [name] <+: front ++ [last] := ⟨after, by simp [hsplit]⟩
      refine hleads _ hlead ((isDependency_joinAll_concat ?_ hroot).mpr (.inr (.inr hgenerated)))
      exact fun n hn => h n (hlead.subset hn)
  · rintro ⟨hexcluded, hown⟩ lead hlead hdependency
    rcases List.eq_nil_or_concat' lead with rfl | ⟨front, name, rfl⟩
    · rcases hdependency with ⟨segment, hsegment, hfolder⟩ | hgenerated
      · exact hexcluded (.inl ⟨segment, List.mem_of_mem_dropLast hsegment, hfolder⟩)
      · exact hexcluded (.inr hgenerated)
    · rw [isDependency_joinAll_concat (fun n hn => h n (hlead.subset hn)) hroot,
        exists_stem_iff] at hdependency
      rcases hdependency with hsegment | ⟨segment, hsegment, hfolder⟩ | hgenerated
      · exact hexcluded (.inl hsegment)
      · obtain ⟨back, rfl⟩ := hlead
        refine hown.folder segment ?_ hfolder
        rw [List.append_assoc, List.dropLast_append_of_ne_nil (by simp)]
        exact List.mem_append_left _ hsegment
      · exact hown.generated name (hlead.subset (by simp)) hgenerated

end Path

end Foldmark

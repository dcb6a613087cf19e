import Foldmark.Proofs.Marker.Collection
import Foldmark.Proofs.Marker.Signs
import Foldmark.Proofs.Outline.Matching
import Foldmark.Outline.Reading

/-!
# Settings that yield regions

A word is read as an end only if it is not read as a start. So settings yield a region for some
document exactly if a closing keyword, in one of its spellings, does not open as well. The check of
settings does not ask for this: it accepts settings under which every end is read as a start.
-/
namespace Foldmark

open Recognizer

namespace Outline

/-- The settings yield a region for at least one document. -/
def YieldsRegion (settings : Settings) : Prop :=
  ∃ entries, (ofCommentLines settings entries).regions ≠ []

/-- A region needs a comment line that closes and does not open. -/
lemma exists_closing_of_yieldsRegion {settings : Settings} (h : YieldsRegion settings) :
    ∃ keyword ∈ (ofSettings settings).endKeywords, ∃ word,
      (ofSettings settings).Spells keyword word ∧ ¬ (ofSettings settings).Opens word := by
  obtain ⟨entries, hne⟩ := h
  obtain ⟨r, hr⟩ := List.exists_mem_of_ne_nil _ hne
  obtain ⟨start, finish, hmatch, -⟩ := exists_matches_of_mem_regions _
    ((ofSettings settings).collect_ascending entries) r hr
  obtain ⟨entry, -, hparse, -⟩ :=
    exists_entry_of_mem_collect (ofSettings settings) entries finish hmatch.finish_mem
  obtain ⟨⟨keyword, hk, word, rest, heq, hword, hrest⟩, hopens⟩ :=
    (exists_parseLine_finish_iff (sound_ofSettings settings).sentinel.front entry.line
      entry.text).mp ⟨finish, hparse, hmatch.finish_kind⟩
  refine ⟨keyword, hk, word, hword, fun hword => hopens ?_⟩
  rw [heq]
  exact hword.append hrest

/-- Keywords that open do not close. -/
lemma not_yieldsRegion_of_subset (settings : Settings)
    (h : (ofSettings settings).endKeywords ⊆ (ofSettings settings).startKeywords) :
    ¬ YieldsRegion settings := by
  intro hyields
  obtain ⟨keyword, hk, word, hword, hopens⟩ := exists_closing_of_yieldsRegion hyields
  exact hopens ⟨keyword, h hk, word, [], by simp, hword, .inl rfl⟩

/-- A start and an end on a later line are one region, and only their names can be wrong. -/
lemma ofMarkers_pair {start finish : Marker} (hs : start.kind = .start)
    (hf : finish.kind = .finish) (hline : start.line < finish.line) :
    ofMarkers [start, finish] =
      ⟨[Region.ofPair start finish 1], Fault.ofNames start finish⟩ := by
  simp [ofMarkers, Pairing.run, Pairing.step, hs, hf, Nat.not_le.mpr hline, Region.ofPair]

lemma collect_pair {r : Recognizer} {a b : Nat} {s t : String} {start finish : Marker}
    (hs : r.parseLine a s = some start) (hf : r.parseLine b t = some finish)
    (hline : start.line < finish.line) : r.collect [⟨a, s⟩, ⟨b, t⟩] = [start, finish] := by
  have hsorted : [start, finish].mergeSort (fun a b => a.line ≤ b.line) = [start, finish] :=
    List.mergeSort_of_pairwise (by simpa using hline.le)
  have hne : start.line ≠ finish.line := hline.ne
  simp [collect, hs, hf, hsorted, dedupBy, hne]

/-- A keyword that opens and a word that only closes give a document with a region. -/
lemma yieldsRegion_of_closing {settings : Settings} {opening : List Char}
    (hopening : opening ∈ (ofSettings settings).startKeywords) {keyword word : List Char}
    (hk : keyword ∈ (ofSettings settings).endKeywords)
    (hword : (ofSettings settings).Spells keyword word)
    (hopens : ¬ (ofSettings settings).Opens word) : YieldsRegion settings := by
  have hsound := sound_ofSettings settings
  obtain ⟨hne, htrim⟩ := hsound.starts opening hopening
  obtain ⟨hkne, hktrim⟩ := hsound.ends keyword hk
  have hstart : (ofSettings settings).Opens opening :=
    ⟨opening, hopening, opening, [], by simp, spells_self _ _, .inl rfl⟩
  have hfinish : (ofSettings settings).Closes word :=
    ⟨keyword, hk, word, [], by simp, hword, rfl⟩
  rw [← body_commentOf hsound htrim hne] at hstart
  rw [← body_commentOf hsound (hword.isTrimmed hktrim) (hword.ne_nil hkne)] at hfinish hopens
  obtain ⟨start, hs, hskind⟩ :=
    (exists_parseLine_start_iff hsound.sentinel.front 1 _).mpr hstart
  obtain ⟨finish, hf, hfkind⟩ :=
    (exists_parseLine_finish_iff hsound.sentinel.front 2 _).mpr ⟨hfinish, hopens⟩
  have hline : start.line < finish.line := by
    rw [line_of_parseLine _ _ _ _ hs, line_of_parseLine _ _ _ _ hf]
    decide
  refine ⟨[⟨1, (ofSettings settings).commentOf opening⟩,
    ⟨2, (ofSettings settings).commentOf word⟩], ?_⟩
  rw [ofCommentLines, collect_pair hs hf hline]
  rw [ofMarkers_pair hskind hfkind hline]
  exact List.cons_ne_nil _ _

lemma exists_startKeyword {settings : Settings} (h : settings.check = .ok ()) :
    ∃ keyword, keyword ∈ (ofSettings settings).startKeywords := by
  have hne : usable settings.startKeywords ≠ [] := by
    intro hnil
    simp [Settings.check, usable_eq_nil_iff.mp hnil] at h
  obtain ⟨word, hword⟩ := List.exists_mem_of_ne_nil _ hne
  exact ⟨_, mem_keywords_iff.mpr ⟨word, hword, rfl⟩⟩

/-- Settings that are accepted yield a region exactly if some closing keyword has a spelling that
does not open. -/
theorem check_yieldsRegion_iff (settings : Settings) (h : settings.check = .ok ()) :
    (∃ entries, (ofCommentLines settings entries).regions ≠ []) ↔
      ∃ keyword ∈ (ofSettings settings).endKeywords, ∃ word,
        (ofSettings settings).Spells keyword word ∧ ¬ (ofSettings settings).Opens word := by
  constructor
  · exact exists_closing_of_yieldsRegion
  · rintro ⟨keyword, hk, word, hword, hopens⟩
    obtain ⟨opening, hopening⟩ := exists_startKeyword h
    exact yieldsRegion_of_closing hopening hk hword hopens

/-- A closing keyword that begins with the opening one. -/
def longerSettings : Settings :=
  { caseSensitive := true, startKeywords := ["region"], endKeywords := ["regionend"] }

theorem check_yieldsRegion_longer :
    longerSettings.check = .ok () ∧
      ∃ entries, (ofCommentLines longerSettings entries).regions ≠ [] := by
  have hcheck : longerSettings.check = .ok () := by decide
  have hmem : "regionend".toList ∈ (ofSettings longerSettings).endKeywords :=
    mem_keywords_iff.mpr ⟨"regionend".toList, by decide, rfl⟩
  have hnone : (ofSettings longerSettings).startMarker? 1 "regionend".toList false = none := by cbv
  have hopens : ¬ (ofSettings longerSettings).Opens "regionend".toList := by
    rw [← startMarker?_isSome_iff (sound_ofSettings longerSettings).sentinel.front 1 _ false, hnone]
    decide
  exact ⟨hcheck, (check_yieldsRegion_iff longerSettings hcheck).mpr
    ⟨_, hmem, _, spells_self _ _, hopens⟩⟩

/-- One keyword for both ends of a region. -/
def sharedSettings : Settings := { startKeywords := ["mark"], endKeywords := ["mark"] }

/-- The settings are accepted, and no document has a region under them. -/
theorem check_sharedSettings :
    sharedSettings.check = .ok () ∧
      ∀ entries, (ofCommentLines sharedSettings entries).regions = [] := by
  refine ⟨by decide, fun entries => ?_⟩
  by_contra hne
  exact not_yieldsRegion_of_subset sharedSettings (fun _ h => h) ⟨entries, hne⟩

end Outline

end Foldmark

import Foldmark.Proofs.Marker.Collection
import Foldmark.Proofs.Marker.Signs
import Mathlib.Data.List.Permutation

/-!
# The longest keyword

Keywords are tried longest first, and the first one that reads is taken. What a keyword takes from the
front of a text is as long as the keyword, in any letter case, so two keywords of one length leave
the same rest. Hence it is a longest keyword that reads, whichever of them comes first, and nothing
depends on the order in which keywords are given or on how often.
-/
namespace Foldmark

/-- Of a row with the largest first, where equal sizes give equal answers, the first answer is that of
a largest entry that answers. -/
lemma findSome?_eq_some_iff_largest {α β : Type} {size : α → Nat} {f : α → Option β} {xs : List α}
    (hsorted : xs.Pairwise fun a b => size b ≤ size a)
    (hsize : ∀ a b x y, f a = some x → f b = some y → size a = size b → x = y) (x : β) :
    xs.findSome? f = some x ↔
      ∃ a ∈ xs, f a = some x ∧ ∀ b ∈ xs, (f b).isSome = true → size b ≤ size a := by
  have hfirst : ∀ y, xs.findSome? f = some y →
      ∃ a ∈ xs, f a = some y ∧ ∀ b ∈ xs, (f b).isSome = true → size b ≤ size a := by
    intro y hy
    obtain ⟨before, a, after, rfl, ha, hbefore⟩ := List.findSome?_eq_some_iff.mp hy
    obtain ⟨hafter, -⟩ := List.pairwise_cons.mp (List.pairwise_append.mp hsorted).2.1
    refine ⟨a, by simp, ha, fun b hb hsome => ?_⟩
    rcases List.mem_append.mp hb with hb | hb
    · simp [hbefore b hb] at hsome
    · rcases List.mem_cons.mp hb with rfl | hb
      · exact Nat.le_refl _
      · exact hafter b hb
  refine ⟨hfirst x, ?_⟩
  rintro ⟨a, ha, hx, hmax⟩
  obtain ⟨y, hy⟩ := Option.isSome_iff_exists.mp
    (List.findSome?_isSome_iff.mpr ⟨a, ha, Option.isSome_of_eq_some hx⟩)
  -- the answer that is found is of the same size
  obtain ⟨b, hb, hby, hbmax⟩ := hfirst y hy
  have hle := hmax b hb (Option.isSome_of_eq_some hby)
  have hge := hbmax a ha (Option.isSome_of_eq_some hx)
  rw [hy, hsize b a y x hby hx (Nat.le_antisymm hle hge)]

namespace Recognizer

lemma Spells.length_eq {r : Recognizer} {keyword word : List Char} (h : r.Spells keyword word) :
    word.length = keyword.length := by
  unfold Spells at h
  split_ifs at h
  · rw [h]
  · exact (List.Forall₂.length_eq h).symm

/-- What a keyword leaves of a text depends on its length only. -/
lemma eq_drop_of_stripKeyword? {r : Recognizer} {content keyword rest : List Char}
    (h : r.stripKeyword? content keyword = some rest) : rest = content.drop keyword.length := by
  obtain ⟨word, rfl, hword⟩ := stripKeyword?_eq_some_iff.mp h
  rw [← hword.length_eq, List.drop_left]

section

variable (r : Recognizer) (content : List Char) (read : List Char → Option Marker)

/-- What is read after a keyword of the text. -/
def readAfter (keyword : List Char) : Option Marker :=
  (r.stripKeyword? content keyword).bind read

/-- Keywords of one length that read do so with one result. -/
lemma readAfter_eq_of_length {a b : List Char} {m m' : Marker}
    (ha : r.readAfter content read a = some m) (hb : r.readAfter content read b = some m')
    (hlength : a.length = b.length) : m = m' := by
  obtain ⟨rest, hrest, hm⟩ := Option.bind_eq_some_iff.mp ha
  obtain ⟨rest', hrest', hm'⟩ := Option.bind_eq_some_iff.mp hb
  rw [eq_drop_of_stripKeyword? hrest] at hm
  rw [eq_drop_of_stripKeyword? hrest', ← hlength, hm] at hm'
  exact Option.some.inj hm'

/-- A longest keyword that reads is taken. -/
theorem findSome?_readAfter_iff {keywords : List (List Char)}
    (h : keywords.Pairwise fun a b => b.length ≤ a.length) (m : Marker) :
    keywords.findSome? (r.readAfter content read) = some m ↔
      ∃ keyword ∈ keywords, r.readAfter content read keyword = some m ∧
        ∀ other ∈ keywords, (r.readAfter content read other).isSome = true →
          other.length ≤ keyword.length :=
  findSome?_eq_some_iff_largest h
    (fun _ _ _ _ ha hb hlength => r.readAfter_eq_of_length content read ha hb hlength) m

lemma findSome?_readAfter_congr {keywords keywords' : List (List Char)}
    (h : keywords.Pairwise fun a b => b.length ≤ a.length)
    (h' : keywords'.Pairwise fun a b => b.length ≤ a.length)
    (hmem : ∀ keyword, keyword ∈ keywords ↔ keyword ∈ keywords') :
    keywords.findSome? (r.readAfter content read) =
      keywords'.findSome? (r.readAfter content read) := by
  ext m
  rw [findSome?_readAfter_iff r content read h, findSome?_readAfter_iff r content read h']
  simp only [hmem]

end

/-! ## Settings with the same keywords -/

lemma keywords_sorted (caseSensitive : Bool) (words : List String) :
    (keywords caseSensitive words).Pairwise fun a b => b.length ≤ a.length := by
  refine List.Pairwise.imp of_decide_eq_true (List.pairwise_mergeSort ?_ ?_ _)
  · intro a b c hab hbc
    exact keyLe_trans List.length c b a hbc hab
  · intro a b
    exact keyLe_total List.length b a

lemma mem_keywords_congr {words words' : List String}
    (h : ∀ word, word ∈ usable words ↔ word ∈ usable words') (caseSensitive : Bool)
    (keyword : List Char) :
    keyword ∈ keywords caseSensitive words ↔ keyword ∈ keywords caseSensitive words' := by
  simp only [mem_keywords_iff, h]

end Recognizer

namespace Marker

open Recognizer

/-- Only the keywords themselves matter, as they are when trimmed and without empty ones: neither their
order nor how often one is given. -/
theorem parse_same_keywords (settings : Settings) (starts ends : List String)
    (hstarts : ∀ word, word ∈ usable settings.startKeywords ↔ word ∈ usable starts)
    (hends : ∀ word, word ∈ usable settings.endKeywords ↔ word ∈ usable ends)
    (line : Nat) (text : String) :
    Marker.parse? settings line text =
      Marker.parse? { settings with startKeywords := starts, endKeywords := ends } line text := by
  have hstart : ∀ content fold, (ofSettings settings).startMarker? line content fold =
      (ofSettings { settings with startKeywords := starts, endKeywords := ends }).startMarker?
        line content fold := by
    intro content fold
    exact findSome?_readAfter_congr (ofSettings settings) content _ (keywords_sorted _ _)
      (keywords_sorted _ starts) (mem_keywords_congr hstarts _)
  have hend : ∀ content, (ofSettings settings).endMarker? line content =
      (ofSettings { settings with startKeywords := starts, endKeywords := ends }).endMarker?
        line content := by
    intro content
    exact findSome?_readAfter_congr (ofSettings settings) content _ (keywords_sorted _ _)
      (keywords_sorted _ ends) (mem_keywords_congr hends _)
  simp only [parse?, parseLine, hstart, hend]
  rfl

/-- Settings with two opening keywords of one length. -/
def evenSettings : Settings :=
  { caseSensitive := true, startKeywords := ["mark", "fold"], endKeywords := ["end", "done"] }

/-- The same keywords in another order, some of them twice, with blanks around them and between. -/
theorem parse_same_keywords_shuffled :
    Marker.parse? evenSettings 3 "# fold+ x" = some ⟨3, .start, some "x", true⟩ ∧
      Marker.parse? evenSettings 3 "# fold+ x" =
        Marker.parse?
          { evenSettings with
            startKeywords := ["fold ", "", "mark", "fold"], endKeywords := [" done", "end", "\t"] }
          3 "# fold+ x" := by
  refine ⟨by cbv, parse_same_keywords _ _ _ (fun word => ?_) (fun word => ?_) _ _⟩
  · have h : usable evenSettings.startKeywords = [['m', 'a', 'r', 'k'], ['f', 'o', 'l', 'd']] := rfl
    have h' : usable ["fold ", "", "mark", "fold"] =
        [['f', 'o', 'l', 'd'], ['m', 'a', 'r', 'k'], ['f', 'o', 'l', 'd']] := rfl
    rw [h, h']
    simp only [List.mem_cons, List.not_mem_nil]
    tauto
  · have h : usable evenSettings.endKeywords = [['e', 'n', 'd'], ['d', 'o', 'n', 'e']] := rfl
    have h' : usable [" done", "end", "\t"] = [['d', 'o', 'n', 'e'], ['e', 'n', 'd']] := rfl
    rw [h, h']
    simp only [List.mem_cons, List.not_mem_nil]
    tauto

end Marker

end Foldmark

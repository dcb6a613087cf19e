import Foldmark.Ignore.Filter
import Foldmark.Proofs.Path.Joining

/-!
# What globs match

A pattern stands for a set of rows of octets (`Pattern.Matches`), and it accepts exactly these. For
two kinds of globs this is said in terms of paths: a name between double stars is matched by the
paths through a folder of that name, and an ending after stars by the paths that end so.
-/
namespace Foldmark

namespace Glob

namespace Pattern

/-! ## Patterns -/

/-- What a pattern stands for. -/
def Matches : Pattern → List UInt8 → Prop
  | empty, octets => octets = []
  | octet set, octets => ∃ b, set.has b = true ∧ octets = [b]
  | run set, octets => ∀ b ∈ octets, set.has b = true
  | sequence first second, octets =>
    ∃ front back, octets = front ++ back ∧ first.Matches front ∧ second.Matches back
  | either first second, octets => first.Matches octets ∨ second.Matches octets

lemma mem_runRests_iff {set : OctetSet} {octets rest : List UInt8} :
    rest ∈ runRests set octets ↔
      ∃ front, octets = front ++ rest ∧ ∀ b ∈ front, set.has b = true := by
  induction octets with
  | nil =>
    rw [runRests, List.mem_singleton]
    constructor
    · rintro rfl
      exact ⟨[], rfl, by simp⟩
    · rintro ⟨front, hsplit, -⟩
      exact (List.append_eq_nil_iff.mp hsplit.symm).2
  | cons b octets ih =>
    rw [runRests]
    constructor
    · intro h
      split_ifs at h with hb
      · rcases List.mem_cons.mp h with rfl | h
        · exact ⟨[], rfl, by simp⟩
        · obtain ⟨front, rfl, hfront⟩ := ih.mp h
          exact ⟨b :: front, rfl, List.forall_mem_cons.mpr ⟨hb, hfront⟩⟩
      · obtain rfl := List.mem_singleton.mp h
        exact ⟨[], rfl, by simp⟩
    · rintro ⟨_ | ⟨first, front⟩, hsplit, hfront⟩
      · rw [List.nil_append] at hsplit
        split_ifs <;> simp [hsplit]
      · obtain ⟨rfl, rfl⟩ := List.cons.inj hsplit
        rw [if_pos (hfront b List.mem_cons_self)]
        exact List.mem_cons_of_mem _
          (ih.mpr ⟨front, rfl, fun c hc => hfront c (List.mem_cons_of_mem _ hc)⟩)

/-- What a match leaves over is what follows something that the pattern stands for. -/
lemma mem_rests_iff {pattern : Pattern} {octets rest : List UInt8} :
    rest ∈ pattern.rests octets ↔ ∃ front, octets = front ++ rest ∧ pattern.Matches front := by
  induction pattern generalizing octets rest with
  | empty => simp [rests, Matches, eq_comm]
  | octet set =>
    cases octets with
    | nil => simp [rests, Matches]
    | cons b octets =>
      simp only [rests, Matches]
      constructor
      · intro h
        split_ifs at h with hb
        · obtain rfl := List.mem_singleton.mp h
          exact ⟨[b], rfl, b, hb, rfl⟩
        · simp at h
      · rintro ⟨_, hsplit, c, hc, rfl⟩
        obtain ⟨rfl, rfl⟩ := List.cons.inj hsplit
        simp [hc]
  | run set => exact mem_runRests_iff
  | sequence first second ihFirst ihSecond =>
    simp only [rests, List.mem_eraseDups, List.mem_flatMap, ihFirst, ihSecond, Matches]
    constructor
    · rintro ⟨_, ⟨front, rfl, hfront⟩, back, rfl, hback⟩
      exact ⟨front ++ back, by simp, front, back, rfl, hfront, hback⟩
    · rintro ⟨_, rfl, front, back, rfl, hfront, hback⟩
      exact ⟨back ++ rest, ⟨front, by simp, hfront⟩, back, rfl, hback⟩
  | either first second ihFirst ihSecond =>
    simp only [rests, List.mem_eraseDups, List.mem_append, ihFirst, ihSecond, Matches, ← exists_or,
      and_or_left]

theorem accepts_iff {pattern : Pattern} {octets : List UInt8} :
    pattern.accepts octets = true ↔ pattern.Matches octets := by
  simp [accepts, mem_rests_iff]

/-! ## Rows of patterns -/

lemma matches_anything (octets : List UInt8) : anything.Matches octets := by
  simp [anything, Matches, OctetSet.all, OctetSet.has]

lemma matches_octet_single_iff {b : UInt8} {octets : List UInt8} :
    (octet (.single b)).Matches octets ↔ octets = [b] := by
  have hhas : ∀ c, (OctetSet.single b).has c = true ↔ c = b := by
    intro c
    simp only [OctetSet.single, OctetSet.has, List.any_cons, List.any_nil, Bool.or_false, bne_iff_ne,
      Bool.and_eq_true, decide_eq_true_eq, Bool.not_eq_false]
    exact ⟨fun h => UInt8.le_antisymm h.2 h.1, fun h => by simp [h]⟩
  simp [Matches, hhas]

lemma matches_foldl_iff {pattern : Pattern} {patterns : List Pattern} {octets : List UInt8} :
    (patterns.foldl sequence pattern).Matches octets ↔
      ∃ front back, octets = front ++ back ∧ pattern.Matches front ∧
        (ofList patterns).Matches back := by
  induction patterns generalizing pattern octets with
  | nil => simp [ofList, Matches]
  | cons next patterns ih =>
    rw [ofList, List.foldl_cons, List.foldl_cons, ih]
    simp only [ih, Matches]
    constructor
    · rintro ⟨_, back, rfl, ⟨front, middle, rfl, hfront, hmiddle⟩, hback⟩
      exact ⟨front, middle ++ back, by simp, hfront, middle, back, rfl, ⟨[], middle, rfl, rfl, hmiddle⟩,
        hback⟩
    · rintro ⟨front, _, rfl, hfront, _, back, rfl, ⟨_, middle, rfl, rfl, hmiddle⟩, hback⟩
      exact ⟨front ++ middle, back, by simp, ⟨front, middle, rfl, hfront, hmiddle⟩, hback⟩

lemma matches_ofList_nil {octets : List UInt8} : (ofList []).Matches octets ↔ octets = [] :=
  Iff.rfl

lemma matches_ofList_cons {pattern : Pattern} {patterns : List Pattern} {octets : List UInt8} :
    (ofList (pattern :: patterns)).Matches octets ↔
      ∃ front back, octets = front ++ back ∧ pattern.Matches front ∧
        (ofList patterns).Matches back := by
  rw [ofList, List.foldl_cons, matches_foldl_iff]
  simp [Matches]

lemma matches_literal_iff {text octets : List UInt8} :
    (literal text).Matches octets ↔ octets = text := by
  rw [literal]
  induction text generalizing octets with
  | nil => exact matches_ofList_nil
  | cons b text ih =>
    rw [List.map_cons, matches_ofList_cons]
    simp [matches_octet_single_iff, ih]

lemma matches_literals_iff {s : List Char} {patterns : List Pattern} {octets : List UInt8} :
    (ofList (s.map (fun c => literal (Text.Utf8.encodeChar c)) ++ patterns)).Matches octets ↔
      ∃ back, octets = Text.Utf8.encode s ++ back ∧ (ofList patterns).Matches back := by
  induction s generalizing octets with
  | nil => simp [Text.Utf8.encode]
  | cons c s ih =>
    rw [List.map_cons, List.cons_append, matches_ofList_cons]
    simp [matches_literal_iff, ih, Text.Utf8.encode]

/-- Any number of folders. -/
lemma matches_folders_iff {octets : List UInt8} :
    (either (either empty slash) (sequence anything slash)).Matches octets ↔
      octets = [] ∨ ∃ front, octets = front ++ [Path.slash] := by
  simp only [Matches, slash, matches_octet_single_iff, matches_anything, true_and]
  constructor
  · rintro ((h | h) | ⟨front, _, h, rfl⟩)
    · exact .inl h
    · exact .inr ⟨[], h⟩
    · exact .inr ⟨front, h⟩
  · rintro (h | ⟨front, h⟩)
    · exact .inl (.inl h)
    · exact .inr ⟨front, _, h, rfl⟩

/-- What lies in a folder. -/
lemma matches_inside_iff {octets : List UInt8} :
    (sequence slash anything).Matches octets ↔ ∃ back, octets = Path.slash :: back := by
  simp [Matches, slash, matches_octet_single_iff, matches_anything]

end Pattern

/-! ## Two kinds of globs -/

/-- Two stars, a name and two stars. -/
def inFolder (name : String) : Glob :=
  ⟨{}, .directoriesFirst :: name.toList.map .literal ++ [.directoriesLast]⟩

/-- Two stars, a star and an ending. -/
def withEnding (ending : String) : Glob :=
  ⟨{}, .directoriesFirst :: .star :: ending.toList.map .literal⟩

lemma pattern?_comp_literal (options : Options) :
    Token.pattern? options ∘ Token.literal =
      some ∘ fun c => Pattern.literal (Text.Utf8.encodeChar c) :=
  rfl

/-- Whether a path ends in `..` does not matter for what is in a folder. -/
lemma readsName_inFolder (name : String) : (inFolder name).readsName = false := by
  have hname : isName (inFolder name).tokens = false := by
    simp [isName, inFolder, Token.isLiteral]
  have hextension : isExtension {} (inFolder name).tokens = false := by
    unfold isExtension inFolder
    cases name.toList <;> simp
  have hlast : endsInExtension (inFolder name).tokens = false := by
    simp [endsInExtension, inFolder, Token.isLiteral]
  rw [readsName, hname, hlast, Bool.and_false, Bool.or_false, Bool.false_or]
  exact hextension

lemma accepts_inFolder_iff {name : String} {octets : List UInt8} :
    (inFolder name).accepts octets = true ↔
      ∃ front back, octets = front ++ (Path.ofString name).octets ++ Path.slash :: back ∧
        (front = [] ∨ ∃ lead, front = lead ++ [Path.slash]) := by
  have hpattern : (inFolder name).pattern = .ofList
      (.either (.either .empty .slash) (.sequence .anything .slash) ::
        (name.toList.map (fun c => .literal (Text.Utf8.encodeChar c)) ++
          [.sequence .slash .anything])) := by
    simp [pattern, inFolder, Token.patternOf?, Token.pattern?, pattern?_comp_literal]
  rw [accepts, readsName_inFolder, hpattern]
  simp only [Bool.false_and, Bool.not_false, Bool.and_true, Pattern.accepts_iff,
    Pattern.matches_ofList_cons, Pattern.matches_literals_iff, Pattern.matches_folders_iff,
    Pattern.matches_inside_iff, Pattern.matches_ofList_nil]
  constructor
  · rintro ⟨front, _, rfl, hfront, _, rfl, _, _, rfl, ⟨back, rfl⟩, rfl⟩
    exact ⟨front, back, by simp [Path.ofString], hfront⟩
  · rintro ⟨front, back, rfl, hfront⟩
    exact ⟨front, _, List.append_assoc .., hfront, _, rfl, _, [], by simp, ⟨back, rfl⟩, rfl⟩

lemma accepts_withEnding_iff {ending : String} (h : (withEnding ending).readsName = false)
    {octets : List UInt8} :
    (withEnding ending).accepts octets = true ↔ (Path.ofString ending).octets <:+ octets := by
  have hpattern : (withEnding ending).pattern = .ofList
      (.either (.either .empty .slash) (.sequence .anything .slash) :: .anything ::
        (ending.toList.map (fun c => .literal (Text.Utf8.encodeChar c)) ++ [])) := by
    simp [pattern, withEnding, Token.patternOf?, Token.pattern?, pattern?_comp_literal,
      Pattern.anything]
  rw [accepts, h, hpattern]
  simp only [Bool.false_and, Bool.not_false, Bool.and_true, Pattern.accepts_iff,
    Pattern.matches_ofList_cons, Pattern.matches_literals_iff, Pattern.matches_folders_iff,
    Pattern.matches_anything, Pattern.matches_ofList_nil, true_and]
  constructor
  · rintro ⟨front, _, rfl, -, back, _, rfl, _, rfl, rfl⟩
    exact ⟨front ++ back, by simp [Path.ofString]⟩
  · rintro ⟨front, rfl⟩
    exact ⟨[], _, rfl, .inl rfl, front, _, rfl, [], by simp [Path.ofString], rfl⟩

end Glob

/-! ## Globs and segments -/

namespace Path

lemma joinSegments_cons (first : List UInt8) {more : List (List UInt8)} (h : more ≠ []) :
    joinSegments (first :: more) = first ++ slash :: joinSegments more := by
  obtain ⟨second, more, rfl⟩ := List.exists_cons_of_ne_nil h
  simp [joinSegments, List.intercalate_cons_cons]

lemma joinSegments_append {a b : List (List UInt8)} (ha : a ≠ []) (hb : b ≠ []) :
    joinSegments (a ++ b) = joinSegments a ++ slash :: joinSegments b := by
  induction a with
  | nil => exact absurd rfl ha
  | cons first a ih =>
    by_cases hmore : a = []
    · subst hmore
      rw [List.singleton_append, joinSegments_cons _ hb]
      simp [joinSegments]
    · rw [List.cons_append, joinSegments_cons _ (by simp [hb]), ih hmore, joinSegments_cons _ hmore,
        List.append_assoc, List.cons_append]

lemma joinSegments_segments (octets : List UInt8) : joinSegments (segments octets) = octets := by
  induction octets with
  | nil => simp [segments, joinSegments]
  | cons b octets ih =>
    rw [segments]
    split_ifs with hb
    · rw [joinSegments_cons _ (segments_ne_nil octets), ih, hb, List.nil_append]
    · obtain ⟨first, more, hfirst⟩ := List.exists_cons_of_ne_nil (segments_ne_nil octets)
      rw [hfirst] at ih ⊢
      by_cases hmore : more = []
      · subst hmore
        simpa [joinSegments] using ih
      · rw [joinSegments_cons _ hmore] at ih ⊢
        rw [List.cons_append, ih]

/-- A segment with another one behind it stands between the start or a slash and a slash. -/
lemma mem_dropLast_segments_iff {name octets : List UInt8} (h : slash ∉ name) :
    name ∈ (segments octets).dropLast ↔
      ∃ front back, octets = front ++ name ++ slash :: back ∧
        (front = [] ∨ ∃ lead, front = lead ++ [slash]) := by
  constructor
  · intro hmem
    obtain ⟨before, after, hsplit⟩ := List.append_of_mem hmem
    obtain ⟨last, hlast⟩ : ∃ last, segments octets = (segments octets).dropLast ++ [last] :=
      ⟨_, (List.dropLast_append_getLast (segments_ne_nil octets)).symm⟩
    rw [hsplit, List.append_assoc, List.cons_append] at hlast
    have hback : joinSegments (name :: (after ++ [last])) =
        name ++ slash :: joinSegments (after ++ [last]) :=
      joinSegments_cons _ (by simp)
    rw [← joinSegments_segments octets, hlast]
    cases before with
    | nil => exact ⟨[], _, hback, .inl rfl⟩
    | cons first before =>
      rw [joinSegments_append (by simp) (by simp), hback]
      exact ⟨joinSegments (first :: before) ++ [slash], joinSegments (after ++ [last]), by simp,
        .inr ⟨_, rfl⟩⟩
  · rintro ⟨front, back, rfl, hfront⟩
    have hback : segments (name ++ slash :: back) = name :: segments back := by
      rw [segments_append_slash, segments_of_not_mem h, List.singleton_append]
    rcases hfront with rfl | ⟨lead, rfl⟩
    · simp [hback, List.dropLast_cons_of_ne_nil (segments_ne_nil back)]
    · rw [List.append_assoc, List.append_assoc, List.singleton_append, segments_append_slash, hback,
        List.dropLast_append_of_ne_nil (by simp),
        List.dropLast_cons_of_ne_nil (segments_ne_nil back)]
      simp

end Path

end Foldmark

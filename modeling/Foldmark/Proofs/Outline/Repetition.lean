import Foldmark.Proofs.Marker.Naming
import Foldmark.Proofs.Outline.Closing

/-!
# Repeated names

An end marker may repeat what is written behind the start of its region. Whatever this text is, the two
markers are one region. A start takes a sentinel before its name for itself and an end does not, so the
names differ if the text begins with a sentinel as a word and goes on behind it; otherwise nothing is
wrong. What is cut off the end of a comment line is cut off the text behind the keyword, as if the
keyword were not there.
-/
namespace Foldmark

open Text (atBoundary isBlank IsTrimmed FrontClear BackClear stripStart? stripEnd? trimStart trimEnd
  withoutStart withoutEnd)

/-! ## Ends behind a gap -/

namespace Text

/-- A word and, behind a gap, the text that follows it, if there is one. -/
def followed (word gap s : List Char) : List Char :=
  if s = [] then word else word ++ gap ++ s

lemma followed_nil (word gap : List Char) : followed word gap [] = word := if_pos rfl

lemma followed_of_ne_nil (word gap : List Char) {s : List Char} (hs : s ≠ []) :
    followed word gap s = word ++ gap ++ s := if_neg hs

lemma append_followed (front word gap s : List Char) :
    front ++ followed word gap s = followed (front ++ word) gap s := by
  unfold followed
  split_ifs <;> simp

lemma followed_eq_append (word gap s : List Char) :
    followed word gap s = word ++ followed [] gap s := by
  rw [append_followed, List.append_nil]

lemma trimEnd_gap {word gap : List Char} (hword : BackClear word)
    (hgap : ∀ c ∈ gap, isBlank c = true) (s : List Char) :
    trimEnd (word ++ gap ++ s) = followed word gap (trimEnd s) := by
  induction s using List.reverseRecOn with
  | nil =>
    rw [List.append_nil, trimEnd_append_blanks hword hgap]
    exact (followed_nil word gap).symm
  | append_singleton s c ih =>
    rw [← List.append_assoc]
    by_cases hc : isBlank c = true
    · have hcut : ∀ t, trimEnd (t ++ [c]) = trimEnd t := fun t =>
        List.rdropWhile_concat_pos isBlank t c hc
      rw [hcut, hcut, ih]
    · have hkeep : ∀ t, trimEnd (t ++ [c]) = t ++ [c] := fun t =>
        List.rdropWhile_concat_neg isBlank t c hc
      rw [hkeep, hkeep, followed_of_ne_nil _ _ (by simp), List.append_assoc]

lemma stripEnd?_append_cons {c : Char} {word : List Char} (hc : c ∉ word) (front s : List Char) :
    stripEnd? word (front ++ c :: s) = (stripEnd? word s).map fun rest => front ++ c :: rest := by
  ext rest
  simp only [Option.map_eq_some_iff, stripEnd?_eq_some_iff]
  constructor
  · intro h
    obtain ⟨before, rfl⟩ : word <:+ s := by
      by_contra hword
      exact not_suffix_append_cons hc hword ⟨rest, h.symm⟩
    refine ⟨before, rfl, ?_⟩
    rw [← List.cons_append, ← List.append_assoc] at h
    exact List.append_cancel_right h
  · rintro ⟨before, rfl, rfl⟩
    simp

/-- A character that no word has separates the end of a text from what precedes it. -/
lemma withoutEnd_append_cons {c : Char} {words : List (List Char)} (h : ∀ word ∈ words, c ∉ word)
    (front s : List Char) :
    withoutEnd words (front ++ c :: s) = front ++ c :: withoutEnd words s := by
  induction words with
  | nil => rfl
  | cons word words ih =>
    have ih := ih fun other hother => h other (List.mem_cons_of_mem word hother)
    simp only [withoutEnd, List.findSome?_cons,
      stripEnd?_append_cons (h word List.mem_cons_self)] at ih ⊢
    cases stripEnd? word s with
    | none => exact ih
    | some rest => rfl

/-- What is cut off at the end is cut off the text behind the gap. -/
lemma trimEnd_withoutEnd_followed {word gap : List Char} {words : List (List Char)}
    (hword : BackClear word) (hgap : ∀ c ∈ gap, isBlank c = true) (hne : gap ≠ [])
    (hwords : ∀ other ∈ words, other.any isBlank = false ∧ ¬ other <:+ word) (s : List Char) :
    trimEnd (withoutEnd words (followed word gap s)) =
      followed word gap (trimEnd (withoutEnd words s)) := by
  by_cases hs : s = []
  · have hkeep : withoutEnd words word = word :=
      withoutEnd_eq_self fun other hother => (hwords other hother).2
    rw [hs, withoutEnd_nil, followed_nil, hkeep, trimEnd_of_backClear hword]
    exact (followed_nil word gap).symm
  · -- the last blank of the gap separates the text from the word
    obtain ⟨before, c, rfl⟩ := (List.eq_nil_or_concat' gap).resolve_left hne
    have hc : ∀ other ∈ words, c ∉ other := fun other hother hmem =>
      List.any_eq_false.mp (hwords other hother).1 c hmem (hgap c (by simp))
    have hsplit : ∀ t, word ++ (before ++ [c]) ++ t = word ++ before ++ c :: t := by simp
    rw [followed_of_ne_nil _ _ hs, hsplit, withoutEnd_append_cons hc, ← hsplit,
      trimEnd_gap hword hgap]

end Text

/-! ## What a line with a keyword says -/

/-- The name that an end marker has from the text behind its keyword: the text less the end of a
comment and less a sentinel at its end. -/
def Marker.endName (t : String) : List Char :=
  trimEnd (withoutEnd ["+".toList]
    (Text.trim (withoutEnd ["*/".toList, "-->".toList] (Text.trim t.toList))))

/-- A text begins with a sentinel as a word, and something follows it. -/
def Marker.LeadsWithSentinel (s : List Char) : Prop :=
  ∃ c rest, s = '+' :: c :: rest ∧ isBlank c = true

namespace Recognizer

open Marker (endName LeadsWithSentinel)
open Text (followed)

lemma isBlank_of_mem_gap (t : List Char) : ∀ c ∈ ' ' :: t.takeWhile isBlank, isBlank c = true :=
  List.forall_mem_cons.mpr ⟨by decide, fun _ => List.mem_takeWhile_imp⟩

lemma body_eq {r : Recognizer} (hne : r.sentinel ≠ []) (text : String) :
    r.body text = trimEnd (withoutEnd [r.sentinel] (r.content (Text.trim text.toList))) := by
  have hempty : r.sentinel.isEmpty = false := by simpa using hne
  have hback : BackClear (r.content (Text.trim text.toList)) := (Text.isTrimmed_trim _).back
  simp only [body, stripTrailingSentinel?, hempty, withoutEnd, List.findSome?_cons,
    List.findSome?_nil, Bool.false_eq_true, if_false]
  cases stripEnd? r.sentinel (r.content (Text.trim text.toList)) with
  | none => exact (Text.trimEnd_of_backClear hback).symm
  | some before => rfl

section

variable {keyword : List Char} (h : Stands keyword)
include h

/-- The blanks between keyword and text stay, and the end of the line is that of the text. -/
lemma trim_line (t : List Char) :
    Text.trim ('#' :: ' ' :: (keyword ++ ' ' :: t)) =
      '#' :: ' ' :: followed keyword (' ' :: t.takeWhile isBlank) (Text.trim t) := by
  have hfront : FrontClear ('#' :: ' ' :: (keyword ++ ' ' :: t)) :=
    Text.frontClear_cons_iff.mpr (by decide)
  have hback : BackClear (['#', ' '] ++ keyword) :=
    (Text.backClear_append_iff h.ne_nil).mpr h.trimmed.back
  have hsplit : '#' :: ' ' :: (keyword ++ ' ' :: t) =
      ['#', ' '] ++ keyword ++ ' ' :: t.takeWhile isBlank ++ trimStart t := by
    simp [trimStart]
  rw [Text.trim_of_frontClear hfront, hsplit, Text.trimEnd_gap hback (isBlank_of_mem_gap t),
    ← Text.append_followed]
  rfl

lemma content_followed {gap : List Char} (hgap : ∀ c ∈ gap, isBlank c = true) (hne : gap ≠ [])
    {s : List Char} (hs : FrontClear s) :
    (ofSettings {}).content ('#' :: ' ' :: followed keyword gap s) =
      followed keyword gap (Text.trim (withoutEnd (ofSettings {}).closers s)) := by
  have hopener : withoutStart (ofSettings {}).openers ('#' :: ' ' :: followed keyword gap s) =
      [] ++ ' ' :: followed keyword gap s := rfl
  have hfront : FrontClear (followed keyword gap s) := by
    unfold followed
    split_ifs
    · exact h.trimmed.front
    · rw [List.append_assoc]
      exact (Text.frontClear_append_iff h.ne_nil).mpr h.trimmed.front
  have hclosers : ∀ sign ∈ (ofSettings {}).closers, sign.any isBlank = false := by decide
  rw [content_eq, hopener,
    Text.withoutEnd_append_cons fun sign hsign => (closers_default sign hsign).2.1,
    List.nil_append, Text.trim_cons_blank (by decide),
    Text.trim_of_frontClear (hfront.of_isPrefix (Text.withoutEnd_isPrefix _ _)),
    Text.trimEnd_withoutEnd_followed h.trimmed.back hgap hne
      fun sign hsign => ⟨hclosers sign hsign, h.ending sign hsign⟩,
    Text.trim_of_frontClear (hs.of_isPrefix (Text.withoutEnd_isPrefix _ _))]

/-- A comment line with a keyword says the keyword and the name behind it. -/
theorem body_line (hplus : ¬ (ofSettings {}).sentinel <:+ keyword) {text t : String}
    (htext : text.toList = '#' :: ' ' :: (keyword ++ ' ' :: t.toList)) :
    (ofSettings {}).body text =
      followed keyword (' ' :: t.toList.takeWhile isBlank) (endName t) := by
  have hgap := isBlank_of_mem_gap t.toList
  have hplus : ∀ word ∈ [(ofSettings {}).sentinel], word.any isBlank = false ∧ ¬ word <:+ keyword :=
    List.forall_mem_singleton.mpr ⟨by decide, hplus⟩
  rw [body_eq (by decide), htext, trim_line h,
    content_followed h hgap (by simp) (Text.isTrimmed_trim _).front,
    Text.trimEnd_withoutEnd_followed h.trimmed.back hgap (by simp) hplus]
  rfl

end

/-! ## Start and end with one text -/

section

variable {gap s : List Char} (hgap : ∀ c ∈ ' ' :: gap, isBlank c = true)
include hgap

lemma nameOf_followed (s : List Char) : nameOf (followed [] (' ' :: gap) s) = nameOf s := by
  have htrim : Text.trim (followed [] (' ' :: gap) s) = Text.trim s := by
    unfold followed
    split_ifs with hs
    · rw [hs]
    · have hgap := Text.trim_between_blanks hgap (List.forall_mem_nil _) s
      rwa [List.append_nil] at hgap
  simp only [nameOf, htrim]

/-- A sentinel behind the gap counts as a word only. -/
lemma stripLeadingSentinel?_followed {r : Recognizer} (hne : r.sentinel ≠ [])
    (hfront : FrontClear r.sentinel) (hs : FrontClear s) :
    r.stripLeadingSentinel? (followed [] (' ' :: gap) s) =
      (stripStart? r.sentinel s).filter atBoundary := by
  by_cases hnil : s = []
  · have hnone : stripStart? r.sentinel [] = none := by
      rw [Option.eq_none_iff_forall_ne_some]
      intro after hafter
      exact hne (List.append_eq_nil_iff.mp (Text.stripStart?_eq_some_iff.mp hafter).symm).1
    rw [hnil, Text.followed_nil]
    simp [stripLeadingSentinel?, hnone, trimStart]
  · obtain ⟨hc, hgap⟩ := List.forall_mem_cons.mp hgap
    have htrim : trimStart (gap ++ s) = s :=
      (List.dropWhile_append_of_pos hgap).trans (Text.trimStart_of_frontClear hs)
    rw [Text.followed_of_ne_nil _ _ hnil, List.nil_append, List.cons_append,
      stripLeadingSentinel?_blank hne hfront hc, htrim]

end

lemma atBoundary_followed (gap s : List Char) : atBoundary (followed [] (' ' :: gap) s) = true := by
  unfold followed
  split_ifs <;> rfl

/-- The name that a start has from the text that gives an end its name. -/
def startName (s : List Char) : Option String :=
  ((stripStart? "+".toList s).filter atBoundary).elim (nameOf s) nameOf

section

variable (line : Nat) (t : String)

lemma isTrimmed_endName : IsTrimmed (endName t) := by
  have hfront : FrontClear
      (Text.trim (withoutEnd ["*/".toList, "-->".toList] (Text.trim t.toList))) :=
    (Text.isTrimmed_trim _).front
  exact ⟨Text.frontClear_trimEnd (hfront.of_isPrefix (Text.withoutEnd_isPrefix _ _)),
    Text.backClear_trimEnd _⟩

lemma exists_parse?_region :
    ∃ fold, Marker.parse? {} line ("# region " ++ t) =
      some ⟨line, .start, startName (endName t), fold⟩ := by
  have hstands : Stands "region".toList := ⟨by decide, by decide, by decide⟩
  have htext : ("# region " ++ t).toList = '#' :: ' ' :: ("region".toList ++ ' ' :: t.toList) := by
    simp
  have hgap := isBlank_of_mem_gap t.toList
  have hstrip : (ofSettings {}).stripLeadingSentinel?
      (followed [] (' ' :: t.toList.takeWhile isBlank) (endName t)) =
        (stripStart? "+".toList (endName t)).filter atBoundary :=
    stripLeadingSentinel?_followed hgap (by decide) (by decide) (isTrimmed_endName t).front
  obtain ⟨fold, hparse⟩ := (ofSettings {}).exists_parseLine_eq line ("# region " ++ t)
  rw [Marker.parse?, hparse, body_line hstands (by decide) htext, Text.followed_eq_append,
    startMarker?_region]
  unfold startName
  cases hword : (stripStart? "+".toList (endName t)).filter atBoundary with
  | some after =>
    have hafter := (Option.filter_eq_some_iff.mp hword).2
    rw [startAfter?_of_sentinel line fold (hstrip.trans hword) hafter, Option.some_or,
      Option.elim_some]
    exact ⟨true, rfl⟩
  | none =>
    rw [startAfter?_of_none line fold (hstrip.trans hword) (atBoundary_followed _ _),
      nameOf_followed hgap, Option.some_or, Option.elim_none]
    exact ⟨fold, rfl⟩

lemma parse?_endregion :
    Marker.parse? {} line ("# endregion " ++ t) =
      some ⟨line, .finish, nameOf (endName t), false⟩ := by
  have hstands : Stands "endregion".toList := ⟨by decide, by decide, by decide⟩
  have htext : ("# endregion " ++ t).toList =
      '#' :: ' ' :: ("endregion".toList ++ ' ' :: t.toList) := by simp
  rw [Marker.parse?, parseLine_eq, body_line hstands (by decide) htext, Text.followed_eq_append,
    startMarker?_endregion, Option.none_or, endMarker?_endregion line (atBoundary_followed _ _),
    nameOf_followed (isBlank_of_mem_gap t.toList)]

end

/-- A start takes the sentinel for itself, and then its name lacks it. -/
lemma names_of_leads {s : List Char} (hs : IsTrimmed s) (h : LeadsWithSentinel s) :
    ∃ name, startName s = some name ∧ nameOf s = some (String.ofList s) ∧
      name ≠ String.ofList s := by
  obtain ⟨c, rest, rfl, hc⟩ := h
  have hstrip : (stripStart? "+".toList ('+' :: c :: rest)).filter atBoundary = some (c :: rest) :=
    Option.filter_eq_some_iff.mpr ⟨Text.stripStart?_eq_some_iff.mpr rfl, hc⟩
  have hback : BackClear (c :: rest) := hs.back.of_isSuffix (List.suffix_cons '+' _)
  have hname : nameOf (c :: rest) = some (String.ofList (Text.trim (c :: rest))) := by
    have hne := Text.trim_ne_nil (List.cons_ne_nil c rest) hback
    simp [nameOf, hne]
  refine ⟨String.ofList (Text.trim (c :: rest)), ?_, ?_, ?_⟩
  · rw [startName, hstrip, Option.elim_some, hname]
  · simp [nameOf, Text.trim_of_isTrimmed hs]
  · intro heq
    have hlength := congrArg List.length (String.ofList_injective heq)
    have hle := (Text.trim_isInfix (c :: rest)).length_le
    simp only [List.length_cons] at hlength hle
    omega

lemma startName_of_not_leads {s : List Char} (h : ¬ LeadsWithSentinel s) :
    startName s = none ∨ startName s = nameOf s := by
  unfold startName
  cases hword : (stripStart? "+".toList s).filter atBoundary with
  | none => exact .inr rfl
  | some after =>
    obtain ⟨hstrip, hafter⟩ := Option.filter_eq_some_iff.mp hword
    cases after with
    | nil => exact .inl rfl
    | cons c rest => exact absurd ⟨c, rest, Text.stripStart?_eq_some_iff.mp hstrip, hafter⟩ h

end Recognizer

namespace Outline

open Recognizer
open Marker (endName LeadsWithSentinel)

/-- A start and an end with one text behind their keywords. -/
def repeatedEntries (t : String) (a b : Nat) : List CommentLine :=
  [⟨a, "# region " ++ t⟩, ⟨b, "# endregion " ++ t⟩]

/-- Whatever stands behind a start, an end that repeats it closes the region. Nothing is wrong with
the names, unless the text begins with a sentinel as a word and goes on behind it. -/
theorem ofCommentLines_repeated (t : String) (a b : Nat) (h : a < b) :
    (∃ name fold, (ofCommentLines {} (repeatedEntries t a b)).regions =
        [⟨a, b, 1, name, fold⟩]) ∧
      (¬ LeadsWithSentinel (endName t) →
        (ofCommentLines {} (repeatedEntries t a b)).faults = []) ∧
      (LeadsWithSentinel (endName t) →
        ∃ message, (ofCommentLines {} (repeatedEntries t a b)).faults =
          [⟨b, .mismatchedName, message⟩]) := by
  obtain ⟨fold, hstart⟩ := exists_parse?_region a t
  have hfinish := parse?_endregion b t
  have htrim := isTrimmed_endName t
  generalize endName t = s at *
  rw [ofCommentLines, repeatedEntries, collect_pair hstart hfinish h, ofMarkers_pair rfl rfl h]
  refine ⟨⟨_, _, rfl⟩, fun hleads => ?_, fun hleads => ?_⟩
  · -- a start whose sentinel is the whole text has no name, and then the end may have any
    rcases startName_of_not_leads hleads with hname | hname
    · simp [Fault.ofNames, hname]
    · cases hend : nameOf s <;> simp [Fault.ofNames, hname, hend]
  · obtain ⟨name, hname, hend, hne⟩ := names_of_leads htrim hleads
    have hfault : Fault.ofNames ⟨a, .start, startName s, fold⟩ ⟨b, .finish, nameOf s, false⟩ =
        [Fault.otherName b (String.ofList s) name a] := by
      simp [Fault.ofNames, hname, hend, hne]
    exact ⟨_, hfault⟩

/-- A text with a sentinel at either end and the ends of two comments. -/
theorem ofCommentLines_repeated_sentinel :
    3 < 8 ∧ LeadsWithSentinel (endName "+ a */ + -->") ∧
      ∃ message, (ofCommentLines {} (repeatedEntries "+ a */ + -->" 3 8)).faults =
        [⟨8, .mismatchedName, message⟩] := by
  have hleads : LeadsWithSentinel (endName "+ a */ + -->") :=
    ⟨' ', "a */".toList, by decide, by decide⟩
  exact ⟨by decide, hleads, (ofCommentLines_repeated _ 3 8 (by decide)).2.2 hleads⟩

end Outline

end Foldmark

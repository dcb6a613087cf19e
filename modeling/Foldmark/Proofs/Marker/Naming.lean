import Foldmark.Proofs.Marker.Styles

/-!
# Names of markers

A name stands behind the keyword, with a blank between them. A sentinel may be glued to the keyword,
stand between keyword and name as a word, or end the line, glued to the name or apart from it. All
these lines give the name as it is written, provided that no part of it can be taken for a sentinel
or for the end of a comment (`PlainName`). What a sentinel does is said of any recognizer first, then
the lines are read under the default settings.
-/
namespace Foldmark

open Text (atBoundary isBlank IsTrimmed FrontClear BackClear stripStart? stripEnd? trimStart trimEnd)

namespace Recognizer

/-! ## Sentinels -/

section

variable {r : Recognizer}

lemma stripLeadingSentinel?_glued (hne : r.sentinel ≠ []) (after : List Char) :
    r.stripLeadingSentinel? (r.sentinel ++ after) = some after := by
  have hempty : r.sentinel.isEmpty = false := by simpa using hne
  simp [stripLeadingSentinel?, hempty, Text.stripStart?_eq_some_iff.mpr rfl]

/-- Behind a blank a sentinel counts only as a word of its own. -/
lemma stripLeadingSentinel?_blank (hne : r.sentinel ≠ []) (hfront : FrontClear r.sentinel) {c : Char}
    (hc : isBlank c = true) (rest : List Char) :
    r.stripLeadingSentinel? (c :: rest) =
      (stripStart? r.sentinel (trimStart rest)).filter atBoundary := by
  have hempty : r.sentinel.isEmpty = false := by simpa using hne
  have hglued : stripStart? r.sentinel (c :: rest) = none := by
    rw [Option.eq_none_iff_forall_ne_some]
    intro after hafter
    have hword := Text.not_atBoundary_append (b := after) hfront hne
    rw [← Text.stripStart?_eq_some_iff.mp hafter] at hword
    exact absurd hc (Bool.eq_false_iff.mp hword)
  simp [stripLeadingSentinel?, hempty, hglued, atBoundary, trimStart, hc]

lemma stripLeadingSentinel?_apart (hne : r.sentinel ≠ []) (hfront : FrontClear r.sentinel) {c : Char}
    (hc : isBlank c = true) {after : List Char} (hafter : atBoundary after = true) :
    r.stripLeadingSentinel? (c :: (r.sentinel ++ after)) = some after := by
  have hclear : FrontClear (r.sentinel ++ after) := (Text.frontClear_append_iff hne).mpr hfront
  rw [stripLeadingSentinel?_blank hne hfront hc, Text.trimStart_of_frontClear hclear,
    Text.stripStart?_eq_some_iff.mpr rfl, Option.filter_some, if_pos hafter]

/-- A name that does not begin with a sentinel as a word has none before it. -/
lemma stripLeadingSentinel?_name (hne : r.sentinel ≠ []) (hfront : FrontClear r.sentinel) {c : Char}
    (hc : isBlank c = true) {name : List Char} (hname : FrontClear name)
    (hword : ∀ after, name = r.sentinel ++ after → atBoundary after = false) :
    r.stripLeadingSentinel? (c :: name) = none := by
  rw [stripLeadingSentinel?_blank hne hfront hc, Text.trimStart_of_frontClear hname,
    Option.filter_eq_none_iff]
  intro after hafter
  simp [hword after (Text.stripStart?_eq_some_iff.mp hafter)]

lemma startAfter?_of_sentinel {rest after : List Char} (line : Nat) (fold : Bool)
    (h : r.stripLeadingSentinel? rest = some after) (hafter : atBoundary after = true) :
    r.startAfter? line fold rest = some ⟨line, .start, nameOf after, true⟩ := by
  simp [startAfter?, h, hafter]

lemma startAfter?_of_none {rest : List Char} (line : Nat) (fold : Bool)
    (h : r.stripLeadingSentinel? rest = none) (hrest : atBoundary rest = true) :
    r.startAfter? line fold rest = some ⟨line, .start, nameOf rest, fold⟩ := by
  simp [startAfter?, h, hrest]

lemma parseLine_of_not_suffix {text : String} {content : List Char} (line : Nat)
    (hcontent : r.content (Text.trim text.toList) = content) (h : ¬ r.sentinel <:+ content) :
    r.parseLine line text =
      (r.startMarker? line content r.foldAll).or (r.endMarker? line content) := by
  have hnone : r.stripTrailingSentinel? content = none := by
    simp [stripTrailingSentinel?, Text.stripEnd?_eq_none h]
  simp [parseLine, hcontent, hnone]

lemma parseLine_of_suffix {text : String} {before : List Char} (line : Nat) (hne : r.sentinel ≠ [])
    (hcontent : r.content (Text.trim text.toList) = before ++ r.sentinel) :
    r.parseLine line text =
      (r.startMarker? line (trimEnd before) true).or (r.endMarker? line (trimEnd before)) := by
  have hsome : r.stripTrailingSentinel? (before ++ r.sentinel) = some (trimEnd before) := by
    have hempty : r.sentinel.isEmpty = false := by simpa using hne
    simp [stripTrailingSentinel?, hempty, Text.stripEnd?_eq_some_iff.mpr rfl]
  simp [parseLine, hcontent, hsome]

end

lemma nameOf_cons {c : Char} (hc : isBlank c = true) {name : String} (hne : name ≠ "")
    (hname : IsTrimmed name.toList) : nameOf (c :: name.toList) = some name := by
  simp [nameOf, Text.trim_cons_blank hc, Text.trim_of_isTrimmed hname, hne]

/-! ## Default settings -/

/-- Of two keywords in small letters the longer one is tried first. -/
lemma keywords_pair {a b : String} (htrim : usable [a, b] = [a.toList, b.toList])
    (ha : Text.lower a.toList = a.toList) (hb : Text.lower b.toList = b.toList)
    (hlength : a.toList.length < b.toList.length) : keywords false [a, b] = [b.toList, a.toList] := by
  have hsort : keywords false [a, b] =
      ((usable [a, b]).map Text.lower).mergeSort fun a b => b.length ≤ a.length := rfl
  rw [hsort, htrim, List.map_cons, List.map_cons, List.map_nil, ha, hb]
  simp [List.mergeSort, hlength]

lemma startKeywords_default :
    (ofSettings {}).startKeywords = ["#region".toList, "region".toList] :=
  keywords_pair rfl (by decide +kernel) (by decide +kernel) (by decide)

lemma endKeywords_default :
    (ofSettings {}).endKeywords = ["#endregion".toList, "endregion".toList] :=
  keywords_pair rfl (by decide +kernel) (by decide +kernel) (by decide)

lemma stripKeyword?_self (r : Recognizer) (keyword rest : List Char) :
    r.stripKeyword? (keyword ++ rest) keyword = some rest :=
  stripKeyword?_eq_some_iff.mpr ⟨keyword, rfl, r.spells_self keyword⟩

/-- A keyword is left out by its first letter already. -/
lemma stripKeyword?_default_ne {expected actual : Char}
    (h : Text.lowerChar actual ≠ Text.lowerChar expected) (keyword rest : List Char) :
    (ofSettings {}).stripKeyword? (actual :: rest) (expected :: keyword) = none := by
  simp [stripKeyword?, ofSettings, stripFolded?, h]

lemma startMarker?_region (line : Nat) (fold : Bool) (rest : List Char) :
    (ofSettings {}).startMarker? line ("region".toList ++ rest) fold =
      (ofSettings {}).startAfter? line fold rest := by
  have hsign : (ofSettings {}).stripKeyword? ("region".toList ++ rest) "#region".toList = none :=
    stripKeyword?_default_ne (by decide) _ _
  rw [startMarker?, startKeywords_default, List.findSome?_cons, hsign, Option.bind_none,
    List.findSome?_cons, stripKeyword?_self, Option.bind_some]
  cases (ofSettings {}).startAfter? line fold rest <;> rfl

/-- A closing keyword is no opening one. -/
lemma startMarker?_endregion (line : Nat) (fold : Bool) (rest : List Char) :
    (ofSettings {}).startMarker? line ("endregion".toList ++ rest) fold = none := by
  have hsign : (ofSettings {}).stripKeyword? ("endregion".toList ++ rest) "#region".toList =
      none := stripKeyword?_default_ne (by decide) _ _
  have hbare : (ofSettings {}).stripKeyword? ("endregion".toList ++ rest) "region".toList =
      none := stripKeyword?_default_ne (by decide) _ _
  rw [startMarker?, startKeywords_default, List.findSome?_cons, hsign, Option.bind_none,
    List.findSome?_cons, hbare, Option.bind_none, List.findSome?_nil]

lemma endMarker?_endregion (line : Nat) {rest : List Char} (hrest : atBoundary rest = true) :
    (ofSettings {}).endMarker? line ("endregion".toList ++ rest) =
      some ⟨line, .finish, nameOf rest, false⟩ := by
  have hsign : (ofSettings {}).stripKeyword? ("endregion".toList ++ rest) "#endregion".toList =
      none := stripKeyword?_default_ne (by decide) _ _
  rw [endMarker?, endKeywords_default, List.findSome?_cons, hsign, Option.bind_none,
    List.findSome?_cons, stripKeyword?_self, Option.bind_some, if_pos hrest]

/-- A text that stands in a comment as it is: no end of it is taken for a part of the comment. -/
structure Stands (s : List Char) : Prop where
  ne_nil : s ≠ []
  trimmed : IsTrimmed s
  ending : ∀ sign ∈ (ofSettings {}).closers, ¬ sign <:+ s

lemma closers_default :
    ∀ sign ∈ (ofSettings {}).closers, sign ≠ [] ∧ ' ' ∉ sign ∧ '+' ∉ sign := by
  decide

lemma Stands.content_eq {s : List Char} (h : Stands s) :
    (ofSettings {}).content (Text.trim ('#' :: ' ' :: s)) = s := by
  have hfits := CommentStyle.fits_standard (.line "#") (by decide)
  have hcontent : (ofSettings {}).content
      (Text.trim ([] ++ ((CommentStyle.line "#").comment (String.ofList s)).toList ++ [])) =
        (String.ofList s).toList :=
    content_comment hfits (by simpa using h.trimmed) (by simpa using h.ending) (by simp) (by simp)
  simpa [CommentStyle.comment] using hcontent

end Recognizer

/-- A name that is read as it is written: no part of it can be taken for a sentinel or for the end of
a comment. -/
structure Marker.PlainName (name : String) : Prop where
  ne_empty : name ≠ ""
  trimmed : IsTrimmed name.toList
  ending : ∀ sign ∈ ["+", "*/", "-->"], ¬ sign.toList <:+ name.toList
  front : ∀ c rest, name.toList = '+' :: c :: rest → isBlank c = false

namespace Recognizer

open Marker (PlainName)

section

variable {name : String} (h : PlainName name)
include h

lemma stands_name (front : List Char) (hne : front ≠ []) (hfront : FrontClear front) :
    Stands (front ++ ' ' :: name.toList) := by
  have hname : name.toList ≠ [] := by simpa using h.ne_empty
  refine ⟨by simp, ⟨?_, ?_⟩, ?_⟩
  · exact (Text.frontClear_append_iff hne).mpr hfront
  · rw [List.append_cons, Text.backClear_append_iff hname]
    exact h.trimmed.back
  · intro sign hsign
    refine Text.not_suffix_append_cons (closers_default sign hsign).2.1 ?_
    have hmem : ∀ sign ∈ (ofSettings {}).closers,
        ∃ word ∈ ["+", "*/", "-->"], sign = word.toList := by decide
    obtain ⟨word, hword, rfl⟩ := hmem sign hsign
    exact h.ending word hword

lemma startAfter?_name (line : Nat) (fold : Bool) :
    (ofSettings {}).startAfter? line fold (' ' :: name.toList) =
      some ⟨line, .start, some name, fold⟩ := by
  have hnone : (ofSettings {}).stripLeadingSentinel? (' ' :: name.toList) = none := by
    refine stripLeadingSentinel?_name (by decide) (by decide) (by decide) h.trimmed.front ?_
    intro after hafter
    -- a name that is the sentinel alone would end with it
    cases after with
    | nil => exact absurd ⟨[], hafter.symm⟩ (h.ending "+" (by decide))
    | cons c after => exact h.front c after hafter
  rw [startAfter?_of_none line fold hnone rfl, nameOf_cons (by decide) h.ne_empty h.trimmed]

lemma startAfter?_glued (line : Nat) (fold : Bool) :
    (ofSettings {}).startAfter? line fold ('+' :: ' ' :: name.toList) =
      some ⟨line, .start, some name, true⟩ := by
  have hsome : (ofSettings {}).stripLeadingSentinel? ('+' :: ' ' :: name.toList) =
      some (' ' :: name.toList) := stripLeadingSentinel?_glued (by decide) _
  rw [startAfter?_of_sentinel line fold hsome rfl, nameOf_cons (by decide) h.ne_empty h.trimmed]

lemma startAfter?_apart (line : Nat) (fold : Bool) :
    (ofSettings {}).startAfter? line fold (' ' :: '+' :: ' ' :: name.toList) =
      some ⟨line, .start, some name, true⟩ := by
  have hsome : (ofSettings {}).stripLeadingSentinel? (' ' :: '+' :: ' ' :: name.toList) =
      some (' ' :: name.toList) :=
    stripLeadingSentinel?_apart (by decide) (by decide) (by decide) rfl
  rw [startAfter?_of_sentinel line fold hsome rfl, nameOf_cons (by decide) h.ne_empty h.trimmed]

/-- A line that ends with the name has no sentinel at its end. -/
lemma parse?_of_name_last {text : String} (line : Nat) (front : List Char) (hne : front ≠ [])
    (hfront : FrontClear front)
    (htext : text.toList = '#' :: ' ' :: (front ++ ' ' :: name.toList)) :
    Marker.parse? {} line text =
      ((ofSettings {}).startMarker? line (front ++ ' ' :: name.toList) false).or
        ((ofSettings {}).endMarker? line (front ++ ' ' :: name.toList)) := by
  have hcontent : (ofSettings {}).content (Text.trim text.toList) =
      front ++ ' ' :: name.toList := by
    rw [htext, (stands_name h front hne hfront).content_eq]
  have hplus : ¬ (ofSettings {}).sentinel <:+ front ++ ' ' :: name.toList :=
    Text.not_suffix_append_cons (by decide) (h.ending "+" (by decide))
  exact parseLine_of_not_suffix line hcontent hplus

/-- A sentinel at the end of the line counts, with or without blanks between it and the name. -/
lemma parse?_of_sentinel_last {text : String} (line : Nat) (gap : List Char)
    (htext : text.toList = '#' :: ' ' :: ("region".toList ++ ' ' :: name.toList ++ gap ++ ['+']))
    (hgap : ∀ c ∈ gap, isBlank c = true) :
    Marker.parse? {} line text = some ⟨line, .start, some name, true⟩ := by
  have hname := stands_name h "region".toList (by decide) (by decide)
  have hstands : Stands ("region".toList ++ ' ' :: name.toList ++ gap ++ ['+']) := by
    refine ⟨by simp, ⟨Text.frontClear_cons_iff.mpr (by decide), ?_⟩, ?_⟩
    · rw [Text.backClear_append_iff (by simp)]
      decide
    · intro sign hsign
      obtain ⟨hne, -, hplus⟩ := closers_default sign hsign
      exact Text.not_suffix_append_cons hplus (by simpa using hne)
  have hcontent : (ofSettings {}).content (Text.trim text.toList) =
      "region".toList ++ ' ' :: name.toList ++ gap ++ ['+'] := by
    rw [htext, hstands.content_eq]
  rw [Marker.parse?, parseLine_of_suffix line (by decide) hcontent,
    Text.trimEnd_append_blanks hname.trimmed.back hgap, startMarker?_region,
    startAfter?_name h, Option.some_or]

end

end Recognizer

namespace Marker

open Recognizer

/-- A name is read as it is written, with the sentinel in every place that it may have and without
it, at a start and at an end. -/
theorem parse_spellings (line : Nat) (name : String) (h : PlainName name) :
    Marker.parse? {} line ("# region " ++ name) = some ⟨line, .start, some name, false⟩ ∧
      (∀ text ∈ ["# region+ " ++ name, "# region + " ++ name, "# region " ++ name ++ " +",
          "# region " ++ name ++ "+"],
        Marker.parse? {} line text = some ⟨line, .start, some name, true⟩) ∧
      Marker.parse? {} line ("# endregion " ++ name) = some ⟨line, .finish, some name, false⟩ := by
  -- what precedes the name in each line is a keyword, with or without a sentinel
  refine ⟨?_, ?_, ?_⟩
  · have htext : ("# region " ++ name).toList =
        '#' :: ' ' :: ("region".toList ++ ' ' :: name.toList) := by simp
    rw [parse?_of_name_last h line _ (by decide) (by decide) htext, startMarker?_region,
      startAfter?_name h, Option.some_or]
  · intro text hmem
    simp only [List.mem_cons, List.not_mem_nil, or_false] at hmem
    rcases hmem with rfl | rfl | rfl | rfl
    · have htext : ("# region+ " ++ name).toList =
          '#' :: ' ' :: ("region".toList ++ ['+'] ++ ' ' :: name.toList) := by simp
      rw [parse?_of_name_last h line _ (by decide) (by decide) htext, List.append_assoc,
        startMarker?_region, List.singleton_append, startAfter?_glued h, Option.some_or]
    · have htext : ("# region + " ++ name).toList =
          '#' :: ' ' :: ("region".toList ++ [' ', '+'] ++ ' ' :: name.toList) := by simp
      rw [parse?_of_name_last h line _ (by decide) (by decide) htext, List.append_assoc,
        startMarker?_region, List.cons_append, List.singleton_append, startAfter?_apart h,
        Option.some_or]
    · exact parse?_of_sentinel_last h line [' '] (by simp) (List.forall_mem_singleton.mpr (by decide))
    · exact parse?_of_sentinel_last h line [] (by simp) (List.forall_mem_nil _)
  · have htext : ("# endregion " ++ name).toList =
        '#' :: ' ' :: ("endregion".toList ++ ' ' :: name.toList) := by simp
    rw [parse?_of_name_last h line _ (by decide) (by decide) htext, startMarker?_endregion,
      endMarker?_endregion line rfl, Option.none_or, nameOf_cons (by decide) h.ne_empty h.trimmed]

/-- A name with a sentinel, a keyword and the end of a comment in it. -/
theorem parse_spellings_crowded :
    PlainName "+endregion */ + --> x+y" ∧
      Marker.parse? {} 5 ("# region " ++ "+endregion */ + --> x+y" ++ "+") =
        some ⟨5, .start, some "+endregion */ + --> x+y", true⟩ := by
  have h : PlainName "+endregion */ + --> x+y" := by
    refine ⟨by decide, by decide, by decide, ?_⟩
    intro c rest heq
    obtain rfl : 'e' = c := (List.cons.inj (List.cons.inj heq).2).1
    decide
  exact ⟨h, (parse_spellings 5 _ h).2.1 _ (by decide)⟩

end Marker

end Foldmark

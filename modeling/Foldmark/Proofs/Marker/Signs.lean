import Foldmark.Proofs.Marker.Reading

/-!
# Comment signs

The comment signs of any settings leave room for every text: for each trimmed text there is a comment
line that says it, whatever the signs and the sentinel are. The line puts the first usable opener
before the text, and a sentinel and the first usable closer behind it. An opener that begins with a
blank is never taken off, since lines are trimmed first, and neither is a closer that ends with one.
-/
namespace Foldmark

open Text (atBoundary isBlank lowerChar IsTrimmed FrontClear BackClear stripStart? stripEnd?)

namespace Recognizer

/-! ## Recognizers of settings -/

/-- What holds of the recognizer of any settings. -/
structure Sound (r : Recognizer) : Prop where
  sentinel : IsTrimmed r.sentinel
  openers : ∀ sign ∈ r.openers, sign ≠ []
  closers : ∀ sign ∈ r.closers, sign ≠ []
  starts : ∀ keyword ∈ r.startKeywords, keyword ≠ [] ∧ IsTrimmed keyword
  ends : ∀ keyword ∈ r.endKeywords, keyword ≠ [] ∧ IsTrimmed keyword

/-- The words that can be keywords, as they are written. -/
def usable (words : List String) : List (List Char) :=
  (words.map fun word => Text.trim word.toList).filter fun word => !word.isEmpty

lemma usable_spec {words : List String} {word : List Char} (h : word ∈ usable words) :
    word ≠ [] ∧ IsTrimmed word := by
  obtain ⟨hmem, hne⟩ := List.mem_filter.mp h
  obtain ⟨s, -, rfl⟩ := List.mem_map.mp hmem
  exact ⟨by simpa using hne, Text.isTrimmed_trim _⟩

lemma usable_eq_nil_iff {words : List String} :
    usable words = [] ↔ words.all Settings.isBlankText = true := by
  simp [usable, Settings.isBlankText, List.filter_eq_nil_iff]

lemma mem_keywords_iff {caseSensitive : Bool} {words : List String} {keyword : List Char} :
    keyword ∈ keywords caseSensitive words ↔
      ∃ word ∈ usable words, keyword = if caseSensitive then word else Text.lower word := by
  rw [keywords, (List.mergeSort_perm _ _).mem_iff]
  cases caseSensitive with
  | true => exact ⟨fun h => ⟨keyword, h, rfl⟩, fun ⟨word, h, heq⟩ => heq ▸ h⟩
  | false =>
    simp only [Bool.false_eq_true, if_false, List.mem_map, eq_comm (a := keyword)]
    rfl

lemma keywords_spec {caseSensitive : Bool} {words : List String} {keyword : List Char}
    (h : keyword ∈ keywords caseSensitive words) : keyword ≠ [] ∧ IsTrimmed keyword := by
  obtain ⟨word, hword, rfl⟩ := mem_keywords_iff.mp h
  obtain ⟨hne, htrim⟩ := usable_spec hword
  split_ifs
  · exact ⟨hne, htrim⟩
  · exact ⟨Text.lower_ne_nil hne, Text.isTrimmed_lower htrim⟩

theorem sound_ofSettings (settings : Settings) : (ofSettings settings).Sound where
  sentinel := Text.isTrimmed_trim _
  openers := by simp [ofSettings]
  closers := by simp [ofSettings]
  starts := fun _ => keywords_spec
  ends := fun _ => keywords_spec

/-! ## Taking signs off -/

lemma content_eq (r : Recognizer) (text : List Char) :
    r.content text = Text.trim (Text.withoutEnd r.closers (Text.withoutStart r.openers text)) :=
  rfl

/-- The first sign that a trimmed text can begin with. -/
def frontSign (signs : List (List Char)) : List Char :=
  (signs.find? fun sign => decide (FrontClear sign)).getD []

lemma frontClear_frontSign (signs : List (List Char)) : FrontClear (frontSign signs) := by
  unfold frontSign
  cases h : signs.find? fun sign => decide (FrontClear sign) with
  | none => exact Text.isTrimmed_nil.front
  | some sign => simpa using List.find?_some h

/-- The first usable sign is taken off again. -/
lemma strip_frontSign {signs : List (List Char)} (hsigns : ∀ sign ∈ signs, sign ≠ [])
    {s : List Char} (hs : FrontClear s) :
    ((signs.findSome? fun sign => stripStart? sign (frontSign signs ++ s)).getD
      (frontSign signs ++ s)) = s := by
  induction signs with
  | nil => rfl
  | cons sign signs ih =>
    by_cases hclear : FrontClear sign
    · have hfront : frontSign (sign :: signs) = sign := by simp [frontSign, hclear]
      rw [hfront, List.findSome?_cons_of_isSome] <;>
        simp [Text.stripStart?_eq_some_iff.mpr rfl]
    · have hfront : frontSign (sign :: signs) = frontSign signs := by simp [frontSign, hclear]
      -- the text begins with no blank, so it does not begin with this sign
      have hnone : stripStart? sign (frontSign signs ++ s) = none := by
        rw [Option.eq_none_iff_forall_ne_some]
        intro rest hrest
        have hboth := Text.frontClear_append (frontClear_frontSign signs) hs
        rw [Text.stripStart?_eq_some_iff.mp hrest] at hboth
        exact hclear ((Text.frontClear_append_iff (hsigns sign List.mem_cons_self)).mp hboth)
      rw [hfront, List.findSome?_cons_of_isNone (by simp [hnone])]
      exact ih fun other hother => hsigns other (List.mem_cons_of_mem _ hother)

/-- The first sign that a trimmed text can end with. -/
def backSign (signs : List (List Char)) : List Char :=
  (frontSign (signs.map List.reverse)).reverse

lemma backClear_backSign (signs : List (List Char)) : BackClear (backSign signs) :=
  Text.backClear_iff_reverse.mpr (by
    rw [backSign, List.reverse_reverse]
    exact frontClear_frontSign _)

lemma strip_backSign {signs : List (List Char)} (hsigns : ∀ sign ∈ signs, sign ≠ [])
    {s : List Char} (hs : BackClear s) :
    ((signs.findSome? fun sign => stripEnd? sign (s ++ backSign signs)).getD
      (s ++ backSign signs)) = s := by
  have hmirror : ∀ t : List Char, ((signs.findSome? fun sign => stripEnd? sign t).getD t) =
      (((signs.map List.reverse).findSome? fun sign => stripStart? sign t.reverse).getD
        t.reverse).reverse := by
    intro t
    have hmap : (signs.findSome? fun sign => stripEnd? sign t) =
        ((signs.map List.reverse).findSome? fun sign => stripStart? sign t.reverse).map
          List.reverse := by
      rw [List.findSome?_map, List.map_findSome?]
      rfl
    rw [hmap]
    cases (signs.map List.reverse).findSome? fun sign => stripStart? sign t.reverse <;> simp
  have hreversed : ∀ sign ∈ signs.map List.reverse, sign ≠ [] := by
    intro sign hsign
    obtain ⟨other, hother, rfl⟩ := List.mem_map.mp hsign
    simpa using hsigns other hother
  have hstrip := strip_frontSign hreversed (Text.backClear_iff_reverse.mp hs)
  rw [hmirror, List.reverse_append, backSign, List.reverse_reverse, hstrip, List.reverse_reverse]

/-! ## A comment line for every text -/

/-- A sentinel as a last word. -/
def lastSentinel (r : Recognizer) : List Char :=
  if r.sentinel = [] then [] else ' ' :: r.sentinel

/-- A comment line that says the text. -/
def commentOf (r : Recognizer) (s : List Char) : String :=
  String.ofList (frontSign r.openers ++ (s ++ r.lastSentinel ++ backSign r.closers))

lemma backClear_append_lastSentinel {r : Recognizer} (h : r.Sound) {s : List Char}
    (hs : BackClear s) : BackClear (s ++ r.lastSentinel) := by
  unfold lastSentinel
  split_ifs with hempty
  · simpa using hs
  · rw [List.append_cons]
    intro c hc
    rw [List.getLast?_append_of_ne_nil _ hempty] at hc
    exact h.sentinel.back c hc

lemma content_commentOf {r : Recognizer} (h : r.Sound) {s : List Char} (hs : IsTrimmed s)
    (hne : s ≠ []) :
    r.content (Text.trim (r.commentOf s).toList) = s ++ r.lastSentinel := by
  have hback := backClear_append_lastSentinel h hs.back
  have hfront : FrontClear (s ++ (r.lastSentinel ++ backSign r.closers)) :=
    (Text.frontClear_append_iff hne).mpr hs.front
  rw [← List.append_assoc] at hfront
  have hwhole : IsTrimmed (frontSign r.openers ++ (s ++ r.lastSentinel ++ backSign r.closers)) := by
    refine ⟨Text.frontClear_append (frontClear_frontSign _) hfront, ?_⟩
    intro c hc
    rw [List.getLast?_append_of_ne_nil _ (by simp [hne])] at hc
    exact Text.backClear_append hback (backClear_backSign _) c hc
  rw [commentOf, String.toList_ofList, Text.trim_of_isTrimmed hwhole, content,
    strip_frontSign h.openers hfront, strip_backSign h.closers hback]
  exact Text.trim_of_isTrimmed ⟨(Text.frontClear_append_iff hne).mpr hs.front, hback⟩

/-- Every trimmed text is what some comment line says. -/
theorem body_commentOf {r : Recognizer} (h : r.Sound) {s : List Char} (hs : IsTrimmed s)
    (hne : s ≠ []) : r.body (r.commentOf s) = s := by
  rw [body, content_commentOf h hs hne]
  unfold stripTrailingSentinel? lastSentinel
  by_cases hempty : r.sentinel = []
  · simp [hempty]
  · have hstrip : stripEnd? r.sentinel (s ++ ' ' :: r.sentinel) = some (s ++ [' ']) :=
      Text.stripEnd?_eq_some_iff.mpr (by simp)
    have hblank : Text.trimEnd (s ++ [' ']) = s :=
      Text.trimEnd_append_blanks hs.back (List.forall_mem_singleton.mpr (by decide))
    simp [hempty, hstrip, hblank]

end Recognizer

end Foldmark

import Foldmark.Proofs.Marker.Reading

/-!
# Names as excerpts

The name of a marker is a piece of its comment line, whatever the settings are. Blanks, comment signs,
sentinels and a keyword are taken off the ends of the line, and what is left is not rewritten: also
where letter case is ignored the name keeps the letters of the line. Neither the words nor the signs of
the settings have to make sense for this.
-/
namespace Foldmark

open Text (IsTrimmed)

namespace Recognizer

/-! ## What is left of a comment line -/

lemma content_isInfix (r : Recognizer) (text : List Char) : r.content text <:+: text := by
  have hopener := Text.withoutStart_isSuffix r.openers text
  have hcloser := Text.withoutEnd_isPrefix r.closers (Text.withoutStart r.openers text)
  exact (Text.trim_isInfix _).trans (hcloser.isInfix.trans hopener.isInfix)

lemma prefix_of_stripTrailingSentinel? {r : Recognizer} {content before : List Char}
    (h : r.stripTrailingSentinel? content = some before) : before <+: content := by
  simp only [stripTrailingSentinel?, Option.ite_none_left_eq_some, Option.map_eq_some_iff] at h
  obtain ⟨-, front, hfront, rfl⟩ := h
  have hcut : front <+: content := ⟨r.sentinel, (Text.stripEnd?_eq_some_iff.mp hfront).symm⟩
  exact (Text.trimEnd_isPrefix front).trans hcut

theorem body_isInfix (r : Recognizer) (text : String) : r.body text <:+: text.toList := by
  have hcontent : r.content (Text.trim text.toList) <:+: text.toList :=
    (r.content_isInfix _).trans (Text.trim_isInfix _)
  simp only [body]
  cases h : r.stripTrailingSentinel? (r.content (Text.trim text.toList)) with
  | none => exact hcontent
  | some before => exact (prefix_of_stripTrailingSentinel? h).isInfix.trans hcontent

/-- A name is what stands between blanks, and it is not empty. -/
lemma nameOf_eq_some {rest : List Char} {name : String} (h : nameOf rest = some name) :
    name ≠ "" ∧ IsTrimmed name.toList ∧ name.toList <:+: rest := by
  simp only [nameOf, Option.ite_none_left_eq_some, Option.some.injEq, List.isEmpty_iff] at h
  obtain ⟨hne, rfl⟩ := h
  rw [String.toList_ofList]
  exact ⟨by simpa using hne, Text.isTrimmed_trim rest, Text.trim_isInfix rest⟩

end Recognizer

namespace Marker

open Recognizer

/-- A marker stands on the line that was read. Its name is a trimmed piece of the text that is not
empty, and an end does not ask for a folded region. -/
theorem parse_excerpt (settings : Settings) (line : Nat) (text : String) (m : Marker)
    (h : Marker.parse? settings line text = some m) :
    m.line = line ∧
      (∀ name, m.name = some name →
        name ≠ "" ∧ IsTrimmed name.toList ∧ name.toList <:+: text.toList) ∧
      (m.kind = .finish → m.foldDefault = false) := by
  obtain ⟨rest, hrest, hm⟩ := exists_of_parseLine h
  have hname : ∀ name, nameOf rest = some name →
      name ≠ "" ∧ IsTrimmed name.toList ∧ name.toList <:+: text.toList := by
    intro name hname
    obtain ⟨hne, htrim, hpiece⟩ := nameOf_eq_some hname
    exact ⟨hne, htrim, hpiece.trans (hrest.isInfix.trans (body_isInfix _ text))⟩
  rcases hm with ⟨flag, rfl⟩ | rfl
  · exact ⟨rfl, hname, nofun⟩
  · exact ⟨rfl, hname, fun _ => rfl⟩

/-- Settings with empty words and signs, and with signs that begin or end alike. -/
def oddSettings : Settings where
  startKeywords := ["", "do"]
  endKeywords := [" Done ", "\t"]
  foldSentinel := " ++ "
  foldAllByDefault := true
  commentPrefixes := ["", "/", "//"]
  blockCommentClosers := ["", "/", "*/"]

/-- An end with a sentinel behind its name and a keyword in another letter case. -/
theorem parse_excerpt_odd :
    Marker.parse? oddSettings 7 "\t/ dOnE  My Übung ++/ " =
        some ⟨7, .finish, some "My Übung", false⟩ ∧
      "My Übung".toList <:+: "\t/ dOnE  My Übung ++/ ".toList := by
  have h : Marker.parse? oddSettings 7 "\t/ dOnE  My Übung ++/ " =
      some ⟨7, .finish, some "My Übung", false⟩ := by decide +kernel
  exact ⟨h, ((parse_excerpt oddSettings 7 _ _ h).2.1 _ rfl).2.2⟩

end Marker

end Foldmark

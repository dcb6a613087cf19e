import Foldmark.Proofs.Marker.Signs

/-!
# Letter case of keywords

Where letter case is ignored a keyword is put in lowercase as a whole and then compared one character
at a time. A keyword with a distorted letter no longer fits its own spelling, so a marker that is read
where case matters can be lost. Nothing is lost exactly if every such keyword is read through
another one.
-/
namespace Foldmark

open Text (atBoundary lowerChar)

/-- The same settings with letter case respected or ignored. -/
def Settings.withCase (settings : Settings) (caseSensitive : Bool) : Settings :=
  { settings with caseSensitive }

namespace Recognizer

lemma forall₂_lowerAfter_iff {before word : List Char} :
    List.Forall₂ (fun expected actual => lowerChar actual = lowerChar expected)
        (Text.lowerAfter before word) word ↔
      ¬ Text.DistortedAfter before word := by
  induction word generalizing before with
  | nil => simp [Text.lowerAfter, Text.DistortedAfter]
  | cons c rest ih =>
    rw [Text.lowerAfter_cons, Text.distortedAfter_cons]
    by_cases hc : Text.IsDistorted before c rest
    · obtain ⟨d, more, hd, hne⟩ := Text.smallAt_of_isDistorted hc
      simp [hd, hc, hne]
    · have hdotted : c.toNat ≠ 0x130 := fun h => hc (.inl h)
      obtain ⟨d, hd, hself, -⟩ := Text.lowerChar_spec c hdotted
      simp [Text.smallAt_of_not_isDistorted hc, hd, hself, hc, ih]

/-- The small form of a keyword fits its own spelling exactly if no letter is distorted. -/
theorem spells_lower_iff {r : Recognizer} (h : r.caseSensitive = false) {word : List Char} :
    r.Spells (Text.lower word) word ↔ ¬ Text.Distorted word := by
  simp only [Spells, h, Bool.false_eq_true, if_false]
  exact forall₂_lowerAfter_iff

section

variable (settings : Settings)

/-- What a comment line says does not depend on letter case. -/
lemma body_withCase (a b : Bool) (text : String) :
    (ofSettings (settings.withCase a)).body text = (ofSettings (settings.withCase b)).body text :=
  rfl

/-- A keyword that fits its spelling opens alone and with a sentinel. -/
lemma opens_of_mem_usable {a : Bool} {word : List Char}
    (hword : word ∈ usable settings.startKeywords)
    (hspells : (ofSettings (settings.withCase a)).Spells
      (if a then word else Text.lower word) word) :
    (ofSettings (settings.withCase a)).Opens word ∧
      (ofSettings (settings.withCase a)).Opens (word ++ Text.trim settings.foldSentinel.toList) := by
  have hmem : _ ∈ keywords a settings.startKeywords := mem_keywords_iff.mpr ⟨word, hword, rfl⟩
  exact ⟨⟨_, hmem, word, [], by simp, hspells, .inl rfl⟩,
    ⟨_, hmem, word, _, rfl, hspells, .inr ⟨[], by simp [ofSettings, Settings.withCase], rfl⟩⟩⟩

lemma closes_of_mem_usable {a : Bool} {word : List Char}
    (hword : word ∈ usable settings.endKeywords)
    (hspells : (ofSettings (settings.withCase a)).Spells
      (if a then word else Text.lower word) word) :
    (ofSettings (settings.withCase a)).Closes word :=
  ⟨_, mem_keywords_iff.mpr ⟨word, hword, rfl⟩, word, [], by simp, hspells, rfl⟩

/-- Where case is ignored every keyword is still read as it is written, and a keyword that opens also
with a sentinel. -/
def KeepsKeywords : Prop :=
  (∀ word ∈ usable settings.startKeywords,
    (ofSettings (settings.withCase false)).Reads word ∧
      (ofSettings (settings.withCase false)).Reads
        (word ++ Text.trim settings.foldSentinel.toList)) ∧
  ∀ word ∈ usable settings.endKeywords, (ofSettings (settings.withCase false)).Reads word

/-- A keyword that fits its spelling is read through itself. -/
lemma keepsKeywords_iff :
    KeepsKeywords settings ↔
      (∀ word ∈ usable settings.startKeywords, Text.Distorted word →
        (ofSettings (settings.withCase false)).Reads word ∧
          (ofSettings (settings.withCase false)).Reads
            (word ++ Text.trim settings.foldSentinel.toList)) ∧
      ∀ word ∈ usable settings.endKeywords, Text.Distorted word →
        (ofSettings (settings.withCase false)).Reads word := by
  refine and_congr (forall₂_congr fun word hword => ?_) (forall₂_congr fun word hword => ?_)
  · refine ⟨fun h _ => h, fun h => ?_⟩
    by_cases hd : Text.Distorted word
    · exact h hd
    · have hopens := opens_of_mem_usable (a := false) settings hword
        ((spells_lower_iff rfl).mpr hd)
      exact ⟨.inl hopens.1, .inl hopens.2⟩
  · refine ⟨fun h _ => h, fun h => ?_⟩
    by_cases hd : Text.Distorted word
    · exact h hd
    · exact .inr (closes_of_mem_usable (a := false) settings hword
        ((spells_lower_iff rfl).mpr hd))

/-- Every text that is read where case matters begins with a keyword as it is written. -/
lemma KeepsKeywords.reads {settings : Settings} (h : KeepsKeywords settings) {content : List Char}
    (hon : (ofSettings (settings.withCase true)).Reads content) :
    (ofSettings (settings.withCase false)).Reads content := by
  rcases hon with ⟨keyword, hk, word, rest, rfl, hword, hrest⟩ | ⟨keyword, hk, word, rest, rfl,
    hword, hrest⟩
  · obtain rfl : word = keyword := hword
    obtain ⟨written, hwritten, heq⟩ := mem_keywords_iff.mp hk
    obtain rfl : word = written := heq
    obtain ⟨halone, hsentinel⟩ := h.1 word hwritten
    rcases hrest with hb | ⟨after, rfl, hb⟩
    · exact halone.append hb
    · rw [← List.append_assoc]
      exact hsentinel.append hb
  · obtain rfl : word = keyword := hword
    obtain ⟨written, hwritten, heq⟩ := mem_keywords_iff.mp hk
    obtain rfl : word = written := heq
    exact (h.2 word hwritten).append hrest

/-- A text that is read where case matters stands on some comment line. -/
lemma reads_of_parseLine
    (h : ∀ line text, ((ofSettings (settings.withCase true)).parseLine line text).isSome = true →
      ((ofSettings (settings.withCase false)).parseLine line text).isSome = true)
    {content : List Char} (htrim : Text.IsTrimmed content) (hne : content ≠ [])
    (hon : (ofSettings (settings.withCase true)).Reads content) :
    (ofSettings (settings.withCase false)).Reads content := by
  have hsound := sound_ofSettings (settings.withCase true)
  have hbody := body_commentOf hsound htrim hne
  have hparse := h 0 ((ofSettings (settings.withCase true)).commentOf content)
  rw [parseLine_isSome_iff hsound.sentinel.front, hbody,
    parseLine_isSome_iff (sound_ofSettings (settings.withCase false)).sentinel.front,
    body_withCase settings false true, hbody] at hparse
  exact hparse hon

lemma keepsKeywords_of_parseLine
    (h : ∀ line text, ((ofSettings (settings.withCase true)).parseLine line text).isSome = true →
      ((ofSettings (settings.withCase false)).parseLine line text).isSome = true) :
    KeepsKeywords settings := by
  constructor
  · intro word hword
    obtain ⟨hne, htrim⟩ := usable_spec hword
    obtain ⟨halone, hsentinel⟩ := opens_of_mem_usable (a := true) settings hword
      (spells_self _ word)
    have hboth : Text.IsTrimmed (word ++ Text.trim settings.foldSentinel.toList) :=
      ⟨Text.frontClear_append htrim.front (Text.isTrimmed_trim _).front,
        Text.backClear_append htrim.back (Text.isTrimmed_trim _).back⟩
    exact ⟨reads_of_parseLine settings h htrim hne (.inl halone),
      reads_of_parseLine settings h hboth (by simp [hne]) (.inl hsentinel)⟩
  · intro word hword
    obtain ⟨hne, htrim⟩ := usable_spec hword
    exact reads_of_parseLine settings h htrim hne
      (.inr (closes_of_mem_usable (a := true) settings hword (spells_self _ word)))

end

end Recognizer

namespace Marker

/-- Ignoring letter case loses no marker exactly if each keyword with a distorted letter is still read
as it is written, and a keyword that opens also with a sentinel behind it. -/
theorem isSome_parse_ignoring_case_iff (settings : Settings) :
    (∀ line text, (Marker.parse? (settings.withCase true) line text).isSome = true →
        (Marker.parse? (settings.withCase false) line text).isSome = true) ↔
      (∀ word ∈ Recognizer.usable settings.startKeywords, Text.Distorted word →
        (Recognizer.ofSettings (settings.withCase false)).Reads word ∧
          (Recognizer.ofSettings (settings.withCase false)).Reads
            (word ++ Text.trim settings.foldSentinel.toList)) ∧
      ∀ word ∈ Recognizer.usable settings.endKeywords, Text.Distorted word →
        (Recognizer.ofSettings (settings.withCase false)).Reads word := by
  rw [← Recognizer.keepsKeywords_iff]
  constructor
  · exact Recognizer.keepsKeywords_of_parseLine settings
  · intro h line text hon
    have hfront := fun a => (Recognizer.sound_ofSettings (settings.withCase a)).sentinel.front
    rw [parse?, Recognizer.parseLine_isSome_iff (hfront true)] at hon
    rw [parse?, Recognizer.parseLine_isSome_iff (hfront false),
      Recognizer.body_withCase settings false true]
    exact h.reads hon

/-- Keywords in capital letters, the closing one with a dotted i. -/
def dottedSettings : Settings := { startKeywords := ["BAŞLA"], endKeywords := ["BİTİR"] }

/-- The small form of the dotted letter is two characters, and the end is lost. -/
theorem parse_dotted_keyword :
    Marker.parse? (dottedSettings.withCase true) 1 "# BİTİR" = some ⟨1, .finish, none, false⟩ ∧
      Marker.parse? (dottedSettings.withCase false) 1 "# BİTİR" = none := by
  constructor
  · decide +kernel
  · decide +kernel

end Marker

end Foldmark

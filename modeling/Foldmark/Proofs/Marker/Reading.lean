import Foldmark.Marker.Recognizer
import Foldmark.Proofs.Text.Letters
import Mathlib.Data.List.Forall2

/-!
# What a recognizer reads

A comment line is a marker if what stands between its comment signs begins with a keyword in one of
its spellings, and the keyword ends there. `Opens` and `Closes` say this without the order in which
keywords are tried. Nothing that follows a keyword undoes it, and every trimmed text stands between
the signs of some comment line, so all that matters is which words open and which close.
-/
namespace Foldmark

open Text (atBoundary isBlank lowerChar IsTrimmed FrontClear BackClear)

namespace Recognizer

/-! ## Spellings of keywords -/

/-- The word is the keyword, in any letter case where case does not matter. -/
def Spells (r : Recognizer) (keyword word : List Char) : Prop :=
  if r.caseSensitive then word = keyword
  else List.Forall₂ (fun expected actual => lowerChar actual = lowerChar expected) keyword word

lemma stripFolded?_eq_some_iff {keyword s rest : List Char} :
    stripFolded? keyword s = some rest ↔
      ∃ word, s = word ++ rest ∧
        List.Forall₂ (fun expected actual => lowerChar actual = lowerChar expected)
          keyword word := by
  induction keyword generalizing s with
  | nil => simp [stripFolded?]
  | cons expected keyword ih =>
    cases s with
    | nil => simp [stripFolded?]
    | cons actual s =>
      simp only [stripFolded?, List.forall₂_cons_left_iff]
      constructor
      · intro h
        split_ifs at h with heq
        obtain ⟨word, rfl, hword⟩ := ih.mp h
        exact ⟨actual :: word, rfl, actual, word, heq, hword, rfl⟩
      · rintro ⟨_, hs, c, word, heq, hword, rfl⟩
        obtain ⟨rfl, rfl⟩ := List.cons.inj hs
        rw [if_pos heq]
        exact ih.mpr ⟨word, rfl, hword⟩

lemma stripKeyword?_eq_some_iff {r : Recognizer} {content keyword rest : List Char} :
    r.stripKeyword? content keyword = some rest ↔
      ∃ word, content = word ++ rest ∧ r.Spells keyword word := by
  unfold stripKeyword? Spells
  split_ifs
  · rw [Text.stripStart?_eq_some_iff]
    constructor
    · exact fun h => ⟨keyword, h, rfl⟩
    · rintro ⟨word, h, rfl⟩
      exact h
  · exact stripFolded?_eq_some_iff

lemma spells_self (r : Recognizer) (keyword : List Char) : r.Spells keyword keyword := by
  unfold Spells
  split_ifs
  · rfl
  · exact List.forall₂_same.mpr fun _ _ => rfl

lemma Spells.ne_nil {r : Recognizer} {keyword word : List Char} (h : r.Spells keyword word)
    (hne : keyword ≠ []) : word ≠ [] := by
  unfold Spells at h
  split_ifs at h
  · rwa [h]
  · rintro rfl
    exact hne (List.forall₂_nil_right_iff.mp h)

/-- A keyword has a blank at an end of a spelling only where it has one itself. -/
lemma Spells.isTrimmed {r : Recognizer} {keyword word : List Char} (h : r.Spells keyword word)
    (hk : IsTrimmed keyword) : IsTrimmed word := by
  unfold Spells at h
  split_ifs at h
  · rwa [h]
  · have hfront : ∀ {a b : List Char},
        List.Forall₂ (fun expected actual => lowerChar actual = lowerChar expected) a b →
          FrontClear a → FrontClear b := by
      intro a b hab ha
      cases hab with
      | nil => exact ha
      | cons heq _ =>
        intro c hc
        obtain rfl : _ = c := by simpa using hc
        exact Text.isBlank_of_lowerChar_eq heq (ha _ rfl)
    have hback := hfront (List.forall₂_reverse_iff.mpr h) (Text.backClear_iff_reverse.mp hk.back)
    exact ⟨hfront h hk.front, Text.backClear_iff_reverse.mpr hback⟩

/-! ## Which texts open and close -/

/-- What may follow a keyword that opens a region: the end of the word, or a sentinel that ends
there. -/
def FollowsStart (r : Recognizer) (rest : List Char) : Prop :=
  atBoundary rest = true ∨ ∃ after, rest = r.sentinel ++ after ∧ atBoundary after = true

/-- The text begins with a keyword that opens a region. -/
def Opens (r : Recognizer) (content : List Char) : Prop :=
  ∃ keyword ∈ r.startKeywords, ∃ word rest,
    content = word ++ rest ∧ r.Spells keyword word ∧ r.FollowsStart rest

/-- The text begins with a keyword that closes a region. -/
def Closes (r : Recognizer) (content : List Char) : Prop :=
  ∃ keyword ∈ r.endKeywords, ∃ word rest,
    content = word ++ rest ∧ r.Spells keyword word ∧ atBoundary rest = true

/-- The text begins with a keyword. -/
def Reads (r : Recognizer) (content : List Char) : Prop :=
  r.Opens content ∨ r.Closes content

/-- A word that opens does so whatever follows it. -/
lemma Opens.append {r : Recognizer} {content rest : List Char} (h : r.Opens content)
    (hrest : atBoundary rest = true) : r.Opens (content ++ rest) := by
  obtain ⟨keyword, hk, word, more, rfl, hword, hmore⟩ := h
  refine ⟨keyword, hk, word, more ++ rest, List.append_assoc .., hword, ?_⟩
  rcases hmore with hb | ⟨after, rfl, hb⟩
  · exact .inl (Text.atBoundary_append hb hrest)
  · exact .inr ⟨after ++ rest, List.append_assoc .., Text.atBoundary_append hb hrest⟩

lemma Closes.append {r : Recognizer} {content rest : List Char} (h : r.Closes content)
    (hrest : atBoundary rest = true) : r.Closes (content ++ rest) := by
  obtain ⟨keyword, hk, word, more, rfl, hword, hb⟩ := h
  exact ⟨keyword, hk, word, more ++ rest, List.append_assoc .., hword,
    Text.atBoundary_append hb hrest⟩

lemma Reads.append {r : Recognizer} {content rest : List Char} (h : r.Reads content)
    (hrest : atBoundary rest = true) : r.Reads (content ++ rest) :=
  h.imp (·.append hrest) (·.append hrest)

lemma startAfter?_isSome_iff {r : Recognizer} (h : FrontClear r.sentinel) (line : Nat)
    (fold : Bool) (rest : List Char) :
    (r.startAfter? line fold rest).isSome = true ↔ r.FollowsStart rest := by
  have hite : ∀ (b fold : Bool) (name : Option String),
      (if b then some (⟨line, .start, name, fold⟩ : Marker) else none).isSome = b := by
    intro b fold name
    cases b <;> rfl
  unfold startAfter? stripLeadingSentinel? FollowsStart
  by_cases hempty : r.sentinel = []
  · simp [hempty, hite]
  · have hsome : r.sentinel.isEmpty = false := by simpa using hempty
    simp only [hsome, Bool.false_eq_true, if_false]
    cases hstrip : Text.stripStart? r.sentinel rest with
    | some after =>
      obtain rfl := Text.stripStart?_eq_some_iff.mp hstrip
      simp [hite, Text.not_atBoundary_append h hempty]
    | none =>
      have hnot : ∀ after, rest ≠ r.sentinel ++ after := by
        intro after heq
        rw [Text.stripStart?_eq_some_iff.mpr heq] at hstrip
        cases hstrip
      by_cases hb : atBoundary rest = true
      · -- a sentinel as the next word counts only if it ends there
        simp only [hb, if_true, true_or, iff_true]
        split
        · rename_i after hafter
          rw [hite]
          exact (Option.filter_eq_some_iff.mp hafter).2
        · exact (hite _ _ _).trans hb
      · simp [hb, hnot]

theorem startMarker?_isSome_iff {r : Recognizer} (h : FrontClear r.sentinel) (line : Nat)
    (content : List Char) (fold : Bool) :
    (r.startMarker? line content fold).isSome = true ↔ r.Opens content := by
  simp only [startMarker?, List.isSome_findSome?, List.any_eq_true, Option.isSome_bind,
    Option.any_eq_true, startAfter?_isSome_iff h, stripKeyword?_eq_some_iff, Opens]
  constructor
  · rintro ⟨keyword, hk, rest, ⟨word, heq, hword⟩, hrest⟩
    exact ⟨keyword, hk, word, rest, heq, hword, hrest⟩
  · rintro ⟨keyword, hk, word, rest, heq, hword, hrest⟩
    exact ⟨keyword, hk, rest, ⟨word, heq, hword⟩, hrest⟩

theorem endMarker?_isSome_iff (r : Recognizer) (line : Nat) (content : List Char) :
    (r.endMarker? line content).isSome = true ↔ r.Closes content := by
  simp only [endMarker?, List.isSome_findSome?, List.any_eq_true, Option.isSome_bind,
    Option.any_eq_true, stripKeyword?_eq_some_iff, Closes]
  constructor
  · rintro ⟨keyword, hk, rest, ⟨word, heq, hword⟩, hrest⟩
    exact ⟨keyword, hk, word, rest, heq, hword, by by_contra hb; simp [hb] at hrest⟩
  · rintro ⟨keyword, hk, word, rest, heq, hword, hrest⟩
    exact ⟨keyword, hk, rest, ⟨word, heq, hword⟩, by simp [hrest]⟩

/-! ## What a marker is made of -/

lemma suffix_of_stripKeyword? {r : Recognizer} {content keyword rest : List Char}
    (h : r.stripKeyword? content keyword = some rest) : rest <:+ content := by
  obtain ⟨word, rfl, -⟩ := stripKeyword?_eq_some_iff.mp h
  exact List.suffix_append word rest

lemma suffix_of_stripLeadingSentinel? {r : Recognizer} {rest after : List Char}
    (h : r.stripLeadingSentinel? rest = some after) : after <:+ rest := by
  simp only [stripLeadingSentinel?, Option.ite_none_left_eq_some] at h
  cases hglued : Text.stripStart? r.sentinel rest with
  | some glued =>
    simp only [hglued, Option.some.injEq] at h
    exact ⟨r.sentinel, h.2 ▸ (Text.stripStart?_eq_some_iff.mp hglued).symm⟩
  | none =>
    simp only [hglued, Option.ite_none_right_eq_some, Option.filter_eq_some_iff] at h
    have hapart := Text.stripStart?_eq_some_iff.mp h.2.2.1
    exact List.IsSuffix.trans ⟨r.sentinel, hapart.symm⟩ (Text.trimStart_isSuffix rest)

/-- A start has its name from the end of the content. -/
theorem exists_of_startMarker? {r : Recognizer} {line : Nat} {content : List Char} {fold : Bool}
    {m : Marker} (h : r.startMarker? line content fold = some m) :
    ∃ rest flag, rest <:+ content ∧ m = ⟨line, .start, nameOf rest, flag⟩ := by
  obtain ⟨keyword, -, hk⟩ := List.exists_of_findSome?_eq_some h
  obtain ⟨rest, hrest, hr⟩ := Option.bind_eq_some_iff.mp hk
  have hsuffix := suffix_of_stripKeyword? hrest
  cases hs : r.stripLeadingSentinel? rest with
  | some after =>
    simp only [startAfter?, hs, Option.ite_none_right_eq_some] at hr
    exact ⟨after, true, (suffix_of_stripLeadingSentinel? hs).trans hsuffix,
      (Option.some.inj hr.2).symm⟩
  | none =>
    simp only [startAfter?, hs, Option.ite_none_right_eq_some] at hr
    exact ⟨rest, fold, hsuffix, (Option.some.inj hr.2).symm⟩

/-- An end has its name from the end of the content, and it never has the flag. -/
theorem exists_of_endMarker? {r : Recognizer} {line : Nat} {content : List Char} {m : Marker}
    (h : r.endMarker? line content = some m) :
    ∃ rest, rest <:+ content ∧ m = ⟨line, .finish, nameOf rest, false⟩ := by
  obtain ⟨keyword, -, hk⟩ := List.exists_of_findSome?_eq_some h
  obtain ⟨rest, hrest, hr⟩ := Option.bind_eq_some_iff.mp hk
  rw [Option.ite_none_right_eq_some] at hr
  exact ⟨rest, suffix_of_stripKeyword? hrest, (Option.some.inj hr.2).symm⟩

lemma kind_of_startMarker? {r : Recognizer} {line : Nat} {content : List Char} {fold : Bool}
    {m : Marker} (h : r.startMarker? line content fold = some m) : m.kind = .start := by
  obtain ⟨_, _, -, rfl⟩ := exists_of_startMarker? h
  rfl

lemma kind_of_endMarker? {r : Recognizer} {line : Nat} {content : List Char} {m : Marker}
    (h : r.endMarker? line content = some m) : m.kind = .finish := by
  obtain ⟨_, -, rfl⟩ := exists_of_endMarker? h
  rfl

/-! ## Comment lines -/

/-- What a comment line says: its content without a sentinel at the end. -/
def body (r : Recognizer) (text : String) : List Char :=
  let content := r.content (Text.trim text.toList)
  (r.stripTrailingSentinel? content).getD content

/-- The content of a comment line ends with a sentinel. -/
def hasSentinel (r : Recognizer) (text : String) : Bool :=
  (r.stripTrailingSentinel? (r.content (Text.trim text.toList))).isSome

/-- A comment line is read by its body, and a sentinel at its end only sets the flag. -/
theorem parseLine_eq (r : Recognizer) (line : Nat) (text : String) :
    r.parseLine line text =
      (r.startMarker? line (r.body text) (r.hasSentinel text || r.foldAll)).or
        (r.endMarker? line (r.body text)) := by
  unfold parseLine body hasSentinel
  cases h : r.stripTrailingSentinel? (r.content (Text.trim text.toList)) <;> simp [h]

lemma exists_parseLine_eq (r : Recognizer) (line : Nat) (text : String) :
    ∃ fold, r.parseLine line text =
      (r.startMarker? line (r.body text) fold).or (r.endMarker? line (r.body text)) :=
  ⟨_, r.parseLine_eq line text⟩

/-- A marker is a start or an end, on the line that was read and with a name from its body. -/
theorem exists_of_parseLine {r : Recognizer} {line : Nat} {text : String} {m : Marker}
    (h : r.parseLine line text = some m) :
    ∃ rest, rest <:+ r.body text ∧
      ((∃ flag, m = ⟨line, .start, nameOf rest, flag⟩) ∨
        m = ⟨line, .finish, nameOf rest, false⟩) := by
  rw [parseLine_eq] at h
  rcases Option.or_eq_some_iff.mp h with hstart | ⟨-, hend⟩
  · obtain ⟨rest, flag, hrest, hm⟩ := exists_of_startMarker? hstart
    exact ⟨rest, hrest, .inl ⟨flag, hm⟩⟩
  · obtain ⟨rest, hrest, hm⟩ := exists_of_endMarker? hend
    exact ⟨rest, hrest, .inr hm⟩

/-- A comment line reads as a start exactly if what it says opens. -/
theorem exists_parseLine_start_iff {r : Recognizer} (h : FrontClear r.sentinel) (line : Nat)
    (text : String) :
    (∃ m, r.parseLine line text = some m ∧ m.kind = .start) ↔ r.Opens (r.body text) := by
  obtain ⟨fold, heq⟩ := r.exists_parseLine_eq line text
  rw [heq, ← startMarker?_isSome_iff h line _ fold, Option.isSome_iff_exists]
  constructor
  · rintro ⟨m, hm, hkind⟩
    rcases Option.or_eq_some_iff.mp hm with hs | ⟨-, he⟩
    · exact ⟨m, hs⟩
    · rw [kind_of_endMarker? he] at hkind
      cases hkind
  · rintro ⟨m, hm⟩
    exact ⟨m, by rw [hm, Option.some_or], kind_of_startMarker? hm⟩

/-- A comment line reads as an end exactly if what it says closes and does not open. -/
theorem exists_parseLine_finish_iff {r : Recognizer} (h : FrontClear r.sentinel) (line : Nat)
    (text : String) :
    (∃ m, r.parseLine line text = some m ∧ m.kind = .finish) ↔
      r.Closes (r.body text) ∧ ¬ r.Opens (r.body text) := by
  obtain ⟨fold, heq⟩ := r.exists_parseLine_eq line text
  rw [heq, ← startMarker?_isSome_iff h line _ fold, ← r.endMarker?_isSome_iff line,
    Option.not_isSome_iff_eq_none, Option.isSome_iff_exists]
  constructor
  · rintro ⟨m, hm, hkind⟩
    rcases Option.or_eq_some_iff.mp hm with hs | ⟨hn, he⟩
    · rw [kind_of_startMarker? hs] at hkind
      cases hkind
    · exact ⟨⟨m, he⟩, hn⟩
  · rintro ⟨⟨m, hm⟩, hn⟩
    exact ⟨m, by rw [hn, Option.none_or, hm], kind_of_endMarker? hm⟩

theorem parseLine_isSome_iff {r : Recognizer} (h : FrontClear r.sentinel) (line : Nat)
    (text : String) :
    (r.parseLine line text).isSome = true ↔ r.Reads (r.body text) := by
  obtain ⟨fold, heq⟩ := r.exists_parseLine_eq line text
  rw [Reads, heq, Option.isSome_or, Bool.or_eq_true, startMarker?_isSome_iff h, endMarker?_isSome_iff]

end Recognizer

end Foldmark

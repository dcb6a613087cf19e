import Foldmark.Text.Blank
import Mathlib.Data.List.DropRight

/-!
# Trimmed texts

A text is trimmed if no blank stands at either end. Trimming gives such a text and changes no text
that is trimmed already. Whether a text begins or ends with a given text is read off its ends, and of
several words that it may begin or end with the first one is taken off.
-/
namespace Foldmark.Text

/-- The text does not begin with a blank. -/
def FrontClear (s : List Char) : Prop := ∀ c ∈ s.head?, isBlank c = false

/-- The text does not end with a blank. -/
def BackClear (s : List Char) : Prop := ∀ c ∈ s.getLast?, isBlank c = false

instance (s : List Char) : Decidable (FrontClear s) :=
  decidable_of_iff (s.head?.all fun c => !isBlank c) (by cases h : s.head? <;> simp [FrontClear, h])

instance (s : List Char) : Decidable (BackClear s) :=
  decidable_of_iff (s.getLast?.all fun c => !isBlank c)
    (by cases h : s.getLast? <;> simp [BackClear, h])

/-- No blank stands at either end. -/
structure IsTrimmed (s : List Char) : Prop where
  front : FrontClear s
  back : BackClear s

instance (s : List Char) : Decidable (IsTrimmed s) :=
  decidable_of_iff (FrontClear s ∧ BackClear s) ⟨fun h => ⟨h.1, h.2⟩, fun h => ⟨h.1, h.2⟩⟩

lemma frontClear_cons_iff {c : Char} {s : List Char} :
    FrontClear (c :: s) ↔ isBlank c = false := by
  simp [FrontClear]

lemma frontClear_append_iff {a b : List Char} (ha : a ≠ []) :
    FrontClear (a ++ b) ↔ FrontClear a := by
  rw [FrontClear, List.head?_append_of_ne_nil _ ha, FrontClear]

lemma backClear_append_iff {a b : List Char} (hb : b ≠ []) : BackClear (a ++ b) ↔ BackClear b := by
  rw [BackClear, List.getLast?_append_of_ne_nil _ hb, BackClear]

lemma frontClear_append {a b : List Char} (ha : FrontClear a) (hb : FrontClear b) :
    FrontClear (a ++ b) := by
  cases a with
  | nil => exact hb
  | cons c a => exact ha

lemma backClear_append {a b : List Char} (ha : BackClear a) (hb : BackClear b) :
    BackClear (a ++ b) := by
  rcases List.eq_nil_or_concat b with rfl | ⟨b, c, rfl⟩
  · simpa using ha
  · intro d hd
    refine hb d ?_
    simpa using hd

lemma backClear_iff_reverse {s : List Char} : BackClear s ↔ FrontClear s.reverse := by
  simp [BackClear, FrontClear]

lemma FrontClear.of_isPrefix {s t : List Char} (ht : FrontClear t) (h : s <+: t) : FrontClear s := by
  obtain ⟨more, rfl⟩ := h
  cases s with
  | nil => simp [FrontClear]
  | cons c s => exact ht

lemma BackClear.of_isSuffix {s t : List Char} (ht : BackClear t) (h : s <:+ t) : BackClear s := by
  rw [backClear_iff_reverse] at ht ⊢
  exact ht.of_isPrefix (List.reverse_prefix.mpr h)

lemma isTrimmed_nil : IsTrimmed [] := ⟨by simp [FrontClear], by simp [BackClear]⟩

/-! ## Trimming -/

lemma trimStart_of_frontClear {s : List Char} (h : FrontClear s) : trimStart s = s := by
  cases s with
  | nil => rfl
  | cons c s =>
    have hc : isBlank c = false := h c rfl
    simp [trimStart, hc]

lemma trimEnd_of_backClear {s : List Char} (h : BackClear s) : trimEnd s = s := by
  refine (List.rdropWhile_eq_self_iff (p := isBlank)).mpr fun hs => ?_
  simp [h _ (List.getLast_mem_getLast? hs)]

lemma trim_of_frontClear {s : List Char} (h : FrontClear s) : trim s = trimEnd s := by
  rw [trim, trimStart_of_frontClear h]

lemma trim_of_isTrimmed {s : List Char} (h : IsTrimmed s) : trim s = s := by
  rw [trim_of_frontClear h.front, trimEnd_of_backClear h.back]

lemma frontClear_trimStart (s : List Char) : FrontClear (trimStart s) := by
  intro c hc
  have hhead := List.head?_dropWhile_not isBlank s
  rw [trimStart, Option.mem_def] at hc
  rw [hc] at hhead
  simpa using hhead

lemma backClear_trimEnd (s : List Char) : BackClear (trimEnd s) := by
  intro c hc
  obtain ⟨hne, rfl⟩ := List.mem_getLast?_eq_getLast hc
  exact Bool.eq_false_iff.mpr (List.rdropWhile_last_not isBlank s hne)

lemma trimStart_isSuffix (s : List Char) : trimStart s <:+ s := List.dropWhile_suffix isBlank

lemma trimEnd_isPrefix (s : List Char) : trimEnd s <+: s := List.rdropWhile_prefix isBlank s

/-- Trimming only cuts off the ends of a text. -/
lemma trim_isInfix (s : List Char) : trim s <:+: s :=
  (trimEnd_isPrefix (trimStart s)).isInfix.trans (trimStart_isSuffix s).isInfix

/-- Trimming at the end keeps the front. -/
lemma frontClear_trimEnd {s : List Char} (h : FrontClear s) : FrontClear (trimEnd s) :=
  h.of_isPrefix (trimEnd_isPrefix s)

lemma isTrimmed_trim (s : List Char) : IsTrimmed (trim s) :=
  ⟨frontClear_trimEnd (frontClear_trimStart s), backClear_trimEnd (trimStart s)⟩

/-- A text that does not end with a blank is not trimmed away. -/
lemma trim_ne_nil {s : List Char} (hne : s ≠ []) (hs : BackClear s) : trim s ≠ [] := by
  rw [trim, trimEnd_of_backClear (hs.of_isSuffix (trimStart_isSuffix s))]
  intro hnil
  have hlast := List.dropWhile_eq_nil_iff.mp hnil (s.getLast hne) (List.getLast_mem hne)
  simp [hs _ (List.getLast_mem_getLast? hne)] at hlast

lemma trimEnd_append_blanks {s blanks : List Char} (hs : BackClear s)
    (hb : ∀ c ∈ blanks, isBlank c = true) : trimEnd (s ++ blanks) = s := by
  induction blanks using List.reverseRecOn with
  | nil => rw [List.append_nil, trimEnd_of_backClear hs]
  | append_singleton blanks c ih =>
    rw [← List.append_assoc]
    exact (List.rdropWhile_concat_pos (p := isBlank) _ c (hb c (by simp))).trans
      (ih fun d hd => hb d (by simp [hd]))

/-- A blank at the front of a text is trimmed away. -/
lemma trim_cons_blank {c : Char} (hc : isBlank c = true) (s : List Char) : trim (c :: s) = trim s := by
  simp [trim, trimStart, hc]

/-- A blank at the end of a text is trimmed away. -/
lemma trim_concat_blank {c : Char} (hc : isBlank c = true) (s : List Char) :
    trim (s ++ [c]) = trim s := by
  simp only [trim, trimStart, List.dropWhile_append]
  split_ifs with hs
  · rw [List.isEmpty_iff.mp hs]
    simp [hc]
  · exact List.rdropWhile_concat_pos isBlank _ c hc

lemma trim_between_blanks {before after : List Char} (hbefore : ∀ c ∈ before, isBlank c = true)
    (hafter : ∀ c ∈ after, isBlank c = true) (s : List Char) :
    trim (before ++ s ++ after) = trim s := by
  induction after using List.reverseRecOn with
  | nil =>
    rw [List.append_nil]
    induction before with
    | nil => rfl
    | cons c before ih =>
      rw [List.cons_append, trim_cons_blank (hbefore c List.mem_cons_self)]
      exact ih fun d hd => hbefore d (List.mem_cons_of_mem c hd)
  | append_singleton after c ih =>
    rw [← List.append_assoc, trim_concat_blank (hafter c (by simp))]
    exact ih fun d hd => hafter d (by simp [hd])

lemma trim_trim (s : List Char) : trim (trim s) = trim s :=
  trim_of_isTrimmed (isTrimmed_trim s)

/-! ## Ends -/

lemma stripEnd?_eq_none {tail s : List Char} (h : ¬ tail <:+ s) : stripEnd? tail s = none := by
  rw [Option.eq_none_iff_forall_ne_some]
  intro rest hrest
  exact h ⟨rest, (stripEnd?_eq_some_iff.mp hrest).symm⟩

/-- A word that lacks a character and ends a text ends what follows the character. -/
lemma not_suffix_append_cons {c : Char} {word front back : List Char} (hc : c ∉ word)
    (h : ¬ word <:+ back) : ¬ word <:+ front ++ c :: back := by
  intro hword
  have hback : c :: back <:+ front ++ c :: back := List.suffix_append front (c :: back)
  rcases Nat.le_total word.length (c :: back).length with hle | hle
  · rcases List.suffix_cons_iff.mp (List.suffix_of_suffix_length_le hword hback hle) with rfl | hs
    · exact hc List.mem_cons_self
    · exact h hs
  · exact hc ((List.suffix_of_suffix_length_le hback hword hle).subset List.mem_cons_self)

/-- A word that lacks a character and begins a text begins what precedes the character. -/
lemma not_prefix_append_cons {c : Char} {word front back : List Char} (hc : c ∉ word)
    (h : ¬ word <+: front) : ¬ word <+: front ++ c :: back := by
  rw [← List.reverse_suffix] at h ⊢
  rw [List.reverse_append, List.reverse_cons, List.append_assoc]
  exact not_suffix_append_cons (by simpa using hc) h

/-- The text without the first of the words that it begins with. -/
def withoutStart (words : List (List Char)) (s : List Char) : List Char :=
  (words.findSome? fun word => stripStart? word s).getD s

/-- The text without the first of the words that it ends with. -/
def withoutEnd (words : List (List Char)) (s : List Char) : List Char :=
  (words.findSome? fun word => stripEnd? word s).getD s

lemma withoutStart_isSuffix (words : List (List Char)) (s : List Char) :
    withoutStart words s <:+ s := by
  unfold withoutStart
  cases h : words.findSome? fun word => stripStart? word s with
  | none => exact List.suffix_rfl
  | some rest =>
    obtain ⟨word, -, hword⟩ := List.exists_of_findSome?_eq_some h
    exact ⟨word, (stripStart?_eq_some_iff.mp hword).symm⟩

lemma withoutEnd_isPrefix (words : List (List Char)) (s : List Char) :
    withoutEnd words s <+: s := by
  unfold withoutEnd
  cases h : words.findSome? fun word => stripEnd? word s with
  | none => exact List.prefix_rfl
  | some rest =>
    obtain ⟨word, -, hword⟩ := List.exists_of_findSome?_eq_some h
    exact ⟨word, (stripEnd?_eq_some_iff.mp hword).symm⟩

lemma withoutEnd_nil (words : List (List Char)) : withoutEnd words [] = [] :=
  List.prefix_nil.mp (withoutEnd_isPrefix words [])

lemma withoutEnd_eq_self {words : List (List Char)} {s : List Char}
    (h : ∀ word ∈ words, ¬ word <:+ s) : withoutEnd words s = s := by
  have hnone : (words.findSome? fun word => stripEnd? word s) = none :=
    List.findSome?_eq_none_iff.mpr fun word hword => stripEnd?_eq_none (h word hword)
  rw [withoutEnd, hnone, Option.getD_none]

/-- A word that is the first of the words that begin it is taken off, if a blank or nothing follows. -/
lemma withoutStart_append {words : List (List Char)} {word rest : List Char}
    (hwords : ∀ other ∈ words, ' ' ∉ other) (hrest : ∀ c ∈ rest.head?, c = ' ')
    (h : words.find? (fun other => other <+: word) = some word) :
    withoutStart words (word ++ rest) = rest := by
  obtain ⟨-, before, after, rfl, hbefore⟩ := List.find?_eq_some_iff_append.mp h
  have hfirst : ((before ++ word :: after).findSome? fun other => stripStart? other (word ++ rest)) =
      some rest := by
    rw [List.findSome?_eq_some_iff]
    refine ⟨before, word, after, rfl, stripStart?_eq_some_iff.mpr rfl, fun other hother => ?_⟩
    have hword : ¬ other <+: word := by simpa using hbefore other hother
    rw [Option.eq_none_iff_forall_ne_some]
    intro more hmore
    have hlong : other <+: word ++ rest := ⟨more, (stripStart?_eq_some_iff.mp hmore).symm⟩
    cases rest with
    | nil => exact hword (by simpa using hlong)
    | cons c rest =>
      obtain rfl : c = ' ' := hrest c rfl
      exact not_prefix_append_cons (hwords other (by simp [hother])) hword hlong
  rw [withoutStart, hfirst, Option.getD_some]

/-- A word that is the first of the words that end it is taken off, if a blank precedes it. -/
lemma withoutEnd_append {words : List (List Char)} {word : List Char}
    (hwords : ∀ other ∈ words, ' ' ∉ other)
    (h : words.find? (fun other => other <:+ word) = some word) (s : List Char) :
    withoutEnd words (s ++ ' ' :: word) = s ++ [' '] := by
  obtain ⟨-, before, after, rfl, hbefore⟩ := List.find?_eq_some_iff_append.mp h
  have hfirst : ((before ++ word :: after).findSome? fun other => stripEnd? other (s ++ ' ' :: word)) =
      some (s ++ [' ']) := by
    rw [List.findSome?_eq_some_iff]
    refine ⟨before, word, after, rfl, stripEnd?_eq_some_iff.mpr (by simp), fun other hother => ?_⟩
    have hword : ¬ other <:+ word := by simpa using hbefore other hother
    exact stripEnd?_eq_none (not_suffix_append_cons (hwords other (by simp [hother])) hword)
  rw [withoutEnd, hfirst, Option.getD_some]

/-! ## Boundaries -/

lemma atBoundary_append {a b : List Char} (ha : atBoundary a = true) (hb : atBoundary b = true) :
    atBoundary (a ++ b) = true := by
  cases a with
  | nil => exact hb
  | cons c a => exact ha

/-- A word does not begin at a boundary. -/
lemma not_atBoundary_append {a b : List Char} (ha : FrontClear a) (hne : a ≠ []) :
    atBoundary (a ++ b) = false := by
  cases a with
  | nil => exact absurd rfl hne
  | cons c a => exact ha c rfl

end Foldmark.Text

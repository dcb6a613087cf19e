import Foldmark.Proofs.Fold.Decoding
import Foldmark.Proofs.Gutter.Rows

/-!
# Layout of the gutter

A printed row is its gutter, the text of the line and the notes, all on one line: whatever the source
is, no row of a text view holds a line feed before its end, so only names and messages could bring one
in. The gutter shows the token that an editor gets for the line, and as many bars as the token says. A
level whose bars no text can hold leaves no view at all.
-/
namespace Foldmark

namespace Text

/-! ## Control characters -/

/-- The characters below the blank, which neither numbers nor the words of a view hold. -/
def IsControl (c : Char) : Prop := c.toNat < 0x20

instance (c : Char) : Decidable (IsControl c) := inferInstanceAs (Decidable (_ < _))

lemma IsControl.ne {c d : Char} (hc : IsControl c) (hd : ¬ IsControl d) : c ≠ d := by
  rintro rfl
  exact hd hc

lemma IsControl.not_mem {c : Char} (hc : IsControl c) {s : List Char}
    (hs : s.all (fun d => !decide (IsControl d)) = true) : c ∉ s := by
  intro hmem
  simpa [hc] using List.all_eq_true.mp hs c hmem

lemma IsControl.not_mem_toString {c : Char} (hc : IsControl c) (n : Nat) :
    c ∉ (toString n).toList := by
  rw [Nat.toString_eq_repr, Nat.toList_repr]
  intro hmem
  have hdigit := Nat.isDigit_of_mem_toDigits (by decide) (by decide) hmem
  simp only [Char.isDigit, Bool.and_eq_true, decide_eq_true_eq] at hdigit
  have hle : 48 ≤ c.toNat := UInt32.le_iff_toNat_le.mp hdigit.1
  unfold IsControl at hc
  omega

/-- A row of a text view has a line feed at its end only. -/
lemma mem_visualRows_cases {s row : List Char} (h : row ∈ visualRows s) :
    ∃ body, '\n' ∉ body ∧ (row = body ∨ row = body ++ ['\n']) := by
  induction s generalizing row with
  | nil => exact ⟨[], by simp, .inl (by simpa [visualRows] using h)⟩
  | cons c rest ih =>
    by_cases hc : c = '\n'
    · subst hc
      rw [visualRows_cons_feed] at h
      rcases List.mem_cons.mp h with rfl | h
      · exact ⟨[], by simp⟩
      · exact ih h
    · by_cases hs : IsStray c rest
      · rw [visualRows_cons_stray hs] at h
        rcases List.mem_cons.mp h with rfl | h
        · exact ⟨[c], by simpa using Ne.symm hc, .inl rfl⟩
        · exact ih h
      · obtain ⟨first, more, hrows⟩ := List.exists_cons_of_ne_nil (visualRows_ne_nil rest)
        rw [visualRows_cons hc hs hrows] at h
        rcases List.mem_cons.mp h with rfl | h
        · obtain ⟨body, hbody, hfirst⟩ := ih (hrows ▸ List.mem_cons_self)
          refine ⟨c :: body, by simp [hbody, Ne.symm hc], ?_⟩
          rcases hfirst with rfl | rfl <;> simp
        · exact ih (hrows ▸ List.mem_cons_of_mem _ h)

end Text

/-- No name of a region and no message of a fault holds the character. -/
structure Outline.Lacks (outline : Outline) (c : Char) : Prop where
  names : ∀ r ∈ outline.regions, ∀ name ∈ r.name, c ∉ name.toList
  messages : ∀ fault ∈ outline.faults, c ∉ fault.message.toList

lemma FoldDirective.token_eq (d : FoldDirective) :
    d.token = toString d.level ∨ d.token = ">" ++ toString d.level := by
  cases d with
  | startsAt level => exact .inr rfl
  | continues level => exact .inl rfl
  | noFold => exact .inl rfl

namespace Gutter

open Text

/-! ## The characters of a row -/

/-- What a row shows behind its gutter: the text and the notes. -/
def Row.content (row : Row) : List Char :=
  row.text ++ row.notes.flatMap fun note => ' ' :: ' ' :: note

/-- A row as it is printed without colours, up to its line feed. -/
def Row.body (width : Nat) (row : Row) : List Char :=
  (toString row.number).toList.leftpad width ' ' ++
    ' ' :: row.directive.token.toList.leftpad 3 ' ' ++ ' ' :: (row.bars ++ ' ' :: row.content)

lemma Row.plain_eq_body (width : Nat) (row : Row) : row.plain width = row.body width ++ ['\n'] := by
  simp [Row.plain, Row.body, Row.content, padLeft, List.leftpad]

variable {c : Char} {outline : Outline}

lemma not_mem_label (hc : IsControl c) {r : Region} {label : String}
    (hname : ∀ name ∈ r.name, c ∉ name.toList) (h : r.label = .ok label) : c ∉ label.toList := by
  obtain ⟨count, -, hlabel⟩ := Count.bind_eq_ok_iff.mp h
  have hword : c ∉ (r.name.getD "region").toList := by
    cases hr : r.name with
    | none => exact hc.not_mem (by decide)
    | some name => exact hname name hr
  have hopen : c ∉ " (".toList := hc.not_mem (by decide)
  have hclose : c ∉ " lines)".toList := hc.not_mem (by decide)
  rw [← Except.ok.inj hlabel]
  simp only [String.toList_append, List.mem_append, not_or]
  exact ⟨⟨⟨hword, hopen⟩, hc.not_mem_toString count⟩, hclose⟩

/-- The notes of a line hold no control character that is not in a name or a message. -/
lemma not_mem_notes (hc : IsControl c) (h : outline.Lacks c) {number : Nat}
    {remarks : List (List Char)} (hnotes : notes outline number = .ok remarks) :
    ∀ note ∈ remarks, c ∉ note := by
  rw [notes_eq] at hnotes
  obtain ⟨labels, hlabels, hremarks⟩ := Count.bind_eq_ok_iff.mp hnotes
  obtain rfl := Except.ok.inj hremarks
  intro note hnote
  rcases List.mem_append.mp hnote with hnote | hnote
  · obtain ⟨r, hr, hregion⟩ := Count.exists_of_mem_mapM hlabels hnote
    obtain ⟨label, hlabel, hnote⟩ := Count.bind_eq_ok_iff.mp hregion
    obtain rfl := Except.ok.inj hnote
    have hsign : c ∉ "▸ ".toList := hc.not_mem (by decide)
    have hword := not_mem_label hc (h.names r (List.mem_filter.mp hr).1) hlabel
    have hfolded : c ∉ (if r.fold then " [folded]" else "").toList := by
      split_ifs
      · exact hc.not_mem (by decide)
      · exact hc.not_mem (by decide)
    simp only [List.mem_append, not_or]
    exact ⟨⟨hsign, hword⟩, hfolded⟩
  · obtain ⟨fault, hfault, rfl⟩ := List.mem_map.mp hnote
    have hsign : c ∉ "! ".toList := hc.not_mem (by decide)
    simp only [faultNote, List.mem_append, not_or]
    exact ⟨hsign, h.messages fault (List.mem_filter.mp hfault).1⟩

lemma not_mem_token (hc : IsControl c) (d : FoldDirective) : c ∉ d.token.toList := by
  have hlevel := hc.not_mem_toString d.level
  rcases d.token_eq with htoken | htoken <;> rw [htoken]
  · exact hlevel
  · have hsign : c ∉ ">".toList := hc.not_mem (by decide)
    simp only [String.toList_append, List.mem_append, not_or]
    exact ⟨hsign, hlevel⟩

lemma not_mem_leftpad (hc : IsControl c) {s : List Char} (hs : c ∉ s) (width : Nat) :
    c ∉ s.leftpad width ' ' := by
  have hblank : c ≠ ' ' := hc.ne (by decide)
  simp [List.leftpad, hblank, hs]

lemma Row.not_mem_body (hc : IsControl c) {row : Row} (hbars : c ∉ row.bars) (htext : c ∉ row.text)
    (hnotes : ∀ note ∈ row.notes, c ∉ note) (width : Nat) : c ∉ row.body width := by
  have hblank : c ≠ ' ' := hc.ne (by decide)
  have hnumber := not_mem_leftpad hc (hc.not_mem_toString row.number) width
  have htoken := not_mem_leftpad hc (not_mem_token hc row.directive) 3
  simp only [Row.body, Row.content, List.mem_append, List.mem_cons, List.mem_flatMap, not_or]
  refine ⟨⟨hnumber, hblank, htoken⟩, hblank, hbars, hblank, htext, ?_⟩
  rintro ⟨note, hnote, hmem | hmem | hmem⟩
  · exact hblank hmem
  · exact hblank hmem
  · exact hnotes note hnote hmem

/-! ## The rows and the tokens -/

/-- Two regions, the inner one without a name, and a fault on the line on which it starts. -/
def notedOutline : Outline where
  regions := [⟨1, 3, 1, some "a", true⟩, ⟨2, 3, 2, none, false⟩]
  faults := [⟨2, .mismatchedName, "end 'b' does not match start 'a'"⟩]

end Gutter

end Foldmark

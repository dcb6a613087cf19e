import Foldmark.Proofs.Marker.Balance
import Foldmark.Proofs.Marker.Reading

/-!
# Collected markers

The markers that a recognizer collects stand on ascending lines, whatever the comment lines are:
they may come in any order and a line may occur several times. Sorting leaves markers of one line
side by side and in the order that they had, and `dedupBy` keeps the first of them.
-/
namespace Foldmark

lemma mem_of_mem_dedupBy {α : Type} (key : α → Nat) (entries : List α) (a : α)
    (h : a ∈ dedupBy key entries) : a ∈ entries := by
  fun_induction dedupBy key entries with
  | case1 => cases h
  | case2 => exact h
  | case3 b c rest hk ih =>
    rcases List.mem_cons.mp (ih h) with rfl | hr
    · exact List.mem_cons_self
    · exact List.mem_cons_of_mem b (List.mem_cons_of_mem c hr)
  | case4 b c rest hk ih =>
    rcases List.mem_cons.mp h with rfl | hr
    · exact List.mem_cons_self
    · exact List.mem_cons_of_mem b (ih hr)

/-- In a sorted row, keeping one entry of each key makes the keys strictly ascending. -/
theorem dedupBy_pairwise {α : Type} (key : α → Nat) (entries : List α)
    (h : entries.Pairwise fun a b => key a ≤ key b) :
    (dedupBy key entries).Pairwise fun a b => key a < key b := by
  fun_induction dedupBy key entries with
  | case1 => exact List.Pairwise.nil
  | case2 a => exact List.pairwise_singleton _ a
  | case3 a b rest hk ih =>
    obtain ⟨ha, hrest⟩ := List.pairwise_cons.mp h
    exact ih (List.pairwise_cons.mpr
      ⟨fun c hc => ha c (List.mem_cons_of_mem b hc), (List.pairwise_cons.mp hrest).2⟩)
  | case4 a b rest hk ih =>
    obtain ⟨ha, hrest⟩ := List.pairwise_cons.mp h
    refine List.pairwise_cons.mpr ⟨fun c hc => ?_, ih hrest⟩
    have hab := ha b List.mem_cons_self
    -- `b` is the least of the entries behind `a`, and its key is not that of `a`
    have hbc : key b ≤ key c := by
      rcases List.mem_cons.mp (mem_of_mem_dedupBy key _ c hc) with rfl | hc
      · exact le_rfl
      · exact (List.pairwise_cons.mp hrest).1 c hc
    omega

/-- Keeping one entry a key goes together with a map under which equal keys stay equal and different
keys stay different. -/
lemma dedupBy_map {α β : Type} (key : α → Nat) (key' : β → Nat) (g : α → β) (entries : List α)
    (h : ∀ a ∈ entries, ∀ b ∈ entries, key' (g a) = key' (g b) ↔ key a = key b) :
    dedupBy key' (entries.map g) = (dedupBy key entries).map g := by
  fun_induction dedupBy key entries with
  | case1 => simp [dedupBy]
  | case2 a => simp [dedupBy]
  | case3 a b rest hk ih =>
    have hg : key' (g a) = key' (g b) := (h a (by simp) b (by simp)).mpr hk
    have ih := ih fun x hx y hy => h x (by grind) y (by grind)
    simp only [List.map_cons] at ih ⊢
    rw [dedupBy, if_pos hg, ih]
  | case4 a b rest hk ih =>
    have hg : key' (g a) ≠ key' (g b) := fun he => hk ((h a (by simp) b (by simp)).mp he)
    have ih := ih fun x hx y hy => h x (List.mem_cons_of_mem a hx) y (List.mem_cons_of_mem a hy)
    simp only [List.map_cons] at ih ⊢
    rw [dedupBy, if_neg hg, ih]

/-- The first entry of a key is never dropped: what stands right before it has another key. -/
lemma find?_dedupBy {α : Type} (key : α → Nat) (k : Nat) (entries : List α) :
    (dedupBy key entries).find? (fun a => key a = k) = entries.find? fun a => key a = k := by
  fun_induction dedupBy key entries with
  | case1 => rfl
  | case2 a => rfl
  | case3 a b rest hk ih =>
    rw [ih]
    by_cases ha : key a = k
    · simp [ha]
    · have hb : key b ≠ k := hk ▸ ha
      simp [ha, hb]
  | case4 a b rest hk ih => rw [List.find?_cons, List.find?_cons, ih]

/-! ## Sorting by a key -/

lemma keyLe_trans {α : Type} (key : α → Nat) (a b c : α) (hab : decide (key a ≤ key b) = true)
    (hbc : decide (key b ≤ key c) = true) : decide (key a ≤ key c) = true := by
  simp only [decide_eq_true_eq] at *
  omega

lemma keyLe_total {α : Type} (key : α → Nat) (a b : α) :
    (decide (key a ≤ key b) || decide (key b ≤ key a)) = true := by
  simp only [Bool.or_eq_true, decide_eq_true_eq]
  omega

/-- Sorting by a key leaves the entries of one key in the order that they had. -/
lemma filter_mergeSort {α : Type} (key : α → Nat) (k : Nat) (entries : List α) :
    (entries.mergeSort fun a b => key a ≤ key b).filter (fun a => key a = k) =
      entries.filter fun a => key a = k := by
  let ofKey := entries.filter fun a => key a = k
  have hkey : ∀ a ∈ ofKey, key a = k := fun a ha => of_decide_eq_true (List.mem_filter.mp ha).2
  have hsorted : ofKey.Pairwise fun a b => decide (key a ≤ key b) = true :=
    List.pairwise_of_forall_mem_list fun a ha b hb => by simp [hkey a ha, hkey b hb]
  have hsublist : ofKey.Sublist (entries.mergeSort fun a b => key a ≤ key b) :=
    List.sublist_mergeSort (keyLe_trans key) (keyLe_total key) hsorted List.filter_sublist
  -- the sorted row has no further entry of this key
  have hall := hsublist.filter fun a => decide (key a = k)
  rw [List.filter_eq_self.mpr fun a ha => decide_eq_true (hkey a ha)] at hall
  exact (hall.eq_of_length ((List.mergeSort_perm entries _).filter _).length_eq.symm).symm

/-- Sorting and keeping one marker a line go together with a map that keeps the order of lines. -/
lemma dedupBy_mergeSort_map (g : Marker → Marker) (found : List Marker)
    (h : ∀ a ∈ found, ∀ b ∈ found, (g a).line ≤ (g b).line ↔ a.line ≤ b.line) :
    dedupBy Marker.line ((found.map g).mergeSort fun a b => a.line ≤ b.line) =
      (dedupBy Marker.line (found.mergeSort fun a b => a.line ≤ b.line)).map g := by
  have hsort : (found.mergeSort fun a b => a.line ≤ b.line).map g =
      (found.map g).mergeSort fun a b => a.line ≤ b.line :=
    List.map_mergeSort fun a ha b hb => (decide_eq_decide.mpr (h a ha b hb)).symm
  rw [← hsort]
  apply dedupBy_map
  intro a ha b hb
  have hab := h a (List.mem_mergeSort.mp ha) b (List.mem_mergeSort.mp hb)
  have hba := h b (List.mem_mergeSort.mp hb) a (List.mem_mergeSort.mp ha)
  omega

theorem Recognizer.collect_ascending (r : Recognizer) (entries : List CommentLine) :
    Marker.Ascending (r.collect entries) := by
  let found := entries.filterMap fun entry => r.parseLine entry.line entry.text
  have hs : (found.mergeSort fun a b => a.line ≤ b.line).Pairwise
      fun a b => decide (a.line ≤ b.line) = true :=
    List.pairwise_mergeSort (keyLe_trans Marker.line) (keyLe_total Marker.line) _
  exact dedupBy_pairwise Marker.line _ (hs.imp of_decide_eq_true)

/-! ## Where markers come from -/

namespace Recognizer

theorem line_of_parseLine (r : Recognizer) (line : Nat) (text : String) (m : Marker)
    (h : r.parseLine line text = some m) : m.line = line := by
  obtain ⟨_, -, ⟨_, rfl⟩ | rfl⟩ := exists_of_parseLine h <;> rfl

/-- A collected marker stands on the line of a comment line that reads as it. -/
theorem exists_entry_of_mem_collect (r : Recognizer) (entries : List CommentLine) (m : Marker)
    (h : m ∈ r.collect entries) :
    ∃ entry ∈ entries, r.parseLine entry.line entry.text = some m ∧ m.line = entry.line := by
  have hf := (List.mergeSort_perm _ _).mem_iff.mp (mem_of_mem_dedupBy Marker.line _ m h)
  obtain ⟨entry, he, hp⟩ := List.mem_filterMap.mp hf
  exact ⟨entry, he, hp, r.line_of_parseLine _ _ m hp⟩

/-! ## Which entry of a line is kept -/

lemma find?_filterMap_parseLine (r : Recognizer) (entries : List CommentLine) (line : Nat) :
    (entries.filterMap fun entry => r.parseLine entry.line entry.text).find?
        (fun m => m.line = line) =
      entries.findSome? fun entry =>
        if entry.line = line then r.parseLine line entry.text else none := by
  induction entries with
  | nil => rfl
  | cons entry entries ih =>
    rw [List.filterMap_cons, List.findSome?_cons, ← ih]
    by_cases hline : entry.line = line
    · subst hline
      cases hparse : r.parseLine entry.line entry.text with
      | none => simp
      | some m => simp [r.line_of_parseLine _ _ m hparse]
    · cases hparse : r.parseLine entry.line entry.text with
      | none => simp [hline]
      | some m => simp [hline, r.line_of_parseLine _ _ m hparse]

/-- The marker that is kept for a line is the first one that the entries of this line read as. -/
theorem find?_collect (r : Recognizer) (entries : List CommentLine) (line : Nat) :
    (r.collect entries).find? (fun m => m.line = line) =
      entries.findSome? fun entry =>
        if entry.line = line then r.parseLine line entry.text else none := by
  rw [collect, find?_dedupBy, ← List.head?_filter, filter_mergeSort, List.head?_filter,
    find?_filterMap_parseLine]

/-- Lines ascend, so a line has no other marker than the one that is found first. -/
lemma find?_collect_eq_some_iff (r : Recognizer) (entries : List CommentLine) (line : Nat)
    (m : Marker) :
    (r.collect entries).find? (fun other => other.line = line) = some m ↔
      m ∈ r.collect entries ∧ m.line = line := by
  constructor
  · intro hfind
    exact ⟨List.mem_of_find?_eq_some hfind, by simpa using List.find?_some hfind⟩
  · rintro ⟨hm, rfl⟩
    cases hfind : (r.collect entries).find? (fun other => other.line = m.line) with
    | none => simpa using List.find?_eq_none.mp hfind m hm
    | some other =>
      have hline : other.line = m.line := by simpa using List.find?_some hfind
      rw [(r.collect_ascending entries).eq_of_line_eq (List.mem_of_find?_eq_some hfind) hm hline]

/-- Collected markers stand on ascending lines. The marker of a line is what the first entry of this
line that reads as a marker reads as, and a line without such an entry has none. -/
theorem collect_keeps_first (settings : Settings) (entries : List CommentLine) :
    ((ofSettings settings).collect entries).Pairwise (fun a b => a.line < b.line) ∧
      ∀ line,
        (∀ m, m ∈ (ofSettings settings).collect entries ∧ m.line = line ↔
          ∃ before entry after, entries = before ++ entry :: after ∧ entry.line = line ∧
            Marker.parse? settings line entry.text = some m ∧
            ∀ other ∈ before, other.line = line →
              Marker.parse? settings line other.text = none) ∧
        ((∀ m ∈ (ofSettings settings).collect entries, m.line ≠ line) ↔
          ∀ entry ∈ entries, entry.line = line →
            Marker.parse? settings line entry.text = none) := by
  refine ⟨collect_ascending _ entries, fun line => ⟨fun m => ?_, ?_⟩⟩
  · rw [← find?_collect_eq_some_iff, find?_collect, List.findSome?_eq_some_iff]
    simp only [Option.ite_none_right_eq_some, ite_eq_right_iff, and_assoc, Marker.parse?]
  · have hnone : (∀ m ∈ (ofSettings settings).collect entries, m.line ≠ line) ↔
        ((ofSettings settings).collect entries).find? (fun m => m.line = line) = none := by
      simp only [List.find?_eq_none, decide_eq_true_eq]
    rw [hnone, find?_collect, List.findSome?_eq_none_iff]
    simp only [ite_eq_right_iff, Marker.parse?]

end Recognizer

end Foldmark

import Foldmark.Proofs.Text.Breaks
import Foldmark.Text.Blank

/-!
# Carriage returns before line feeds

The same text with other line ends: a carriage return is put before every line feed. Lines do not
change. How far a scan reaches does, and it depends on where the scan stops: at both characters, at
neither of them, or at the line feed only, so that it takes the carriage return along. `stretch` is
the length that a number of characters has with the carriage returns among them.
-/
namespace Foldmark.Text

/-- Puts a carriage return before every line feed. -/
def withReturns : List Char → List Char
  | [] => []
  | c :: s => if c = '\n' then '\r' :: '\n' :: withReturns s else c :: withReturns s

@[simp] theorem withReturns_nil : withReturns [] = [] := rfl

@[simp] theorem withReturns_feed (s : List Char) :
    withReturns ('\n' :: s) = '\r' :: '\n' :: withReturns s := rfl

@[simp] theorem withReturns_cons {c : Char} (hc : c ≠ '\n') (s : List Char) :
    withReturns (c :: s) = c :: withReturns s := by
  rw [withReturns, if_neg hc]

@[simp] theorem withReturns_append (a b : List Char) :
    withReturns (a ++ b) = withReturns a ++ withReturns b := by
  induction a with
  | nil => rfl
  | cons c a ih => by_cases hc : c = '\n' <;> simp [withReturns, hc, ih]

lemma withReturns_of_not_mem {s : List Char} (h : '\n' ∉ s) : withReturns s = s := by
  induction s with
  | nil => rfl
  | cons c s ih =>
    rw [List.mem_cons, not_or] at h
    rw [withReturns_cons (Ne.symm h.1), ih h.2]

lemma count_withReturns (s : List Char) : (withReturns s).count '\n' = s.count '\n' := by
  induction s with
  | nil => rfl
  | cons c s ih => by_cases hc : c = '\n' <;> simp [withReturns, hc, ih]

lemma any_withReturns {p : Char → Bool} (h : p '\r' = p '\n') (s : List Char) :
    (withReturns s).any p = s.any p := by
  induction s with
  | nil => rfl
  | cons c s ih => by_cases hc : c = '\n' <;> simp [withReturns, hc, h, ih]

/-! ## Lines -/

lemma rows_withReturns (s : List Char) : rows (withReturns s) = (rows s).map withReturns := by
  induction s with
  | nil => rfl
  | cons c s ih =>
    by_cases hc : c = '\n'
    · subst hc
      have hfeed := rows_cons_feed (withReturns s)
      rw [withReturns_feed, rows_cons_feed, rows_cons (by decide) hfeed, ih]
      rfl
    · rw [withReturns_cons hc]
      cases hr : rows s with
      | nil => simp [rows, hc, ih, hr]
      | cons row more =>
        rw [rows_cons hc hr, rows_cons hc (ih.trans (by rw [hr, List.map_cons]))]
        simp [hc]

theorem lineCount_withReturns (s : List Char) : lineCount (withReturns s) = lineCount s := by
  rw [lineCount, rows_withReturns, List.length_map, lineCount]

/-- A carriage return that is put before a line feed ends no row of its own, and the other breaks of a
text view end the same rows as before. -/
lemma visualRows_withReturns {s : List Char} (h : '\r' ∉ s) :
    visualRows (withReturns s) = (visualRows s).map withReturns := by
  induction s with
  | nil => rfl
  | cons c s ih =>
    rw [List.mem_cons, not_or] at h
    have hrest := ih h.2
    by_cases hc : c = '\n'
    · subst hc
      have hpair : ¬ IsStray '\r' ('\n' :: withReturns s) := fun hs => hs.2.2 rfl rfl
      have hfeed := visualRows_cons_feed (withReturns s)
      rw [withReturns_feed, visualRows_cons_feed, visualRows_cons (by decide) hpair hfeed, hrest]
      rfl
    · rw [withReturns_cons hc]
      -- the character is no carriage return, so what follows it does not matter
      have hiff : IsStray c (withReturns s) ↔ IsStray c s := by simp [IsStray, Ne.symm h.1]
      by_cases hs : IsStray c s
      · rw [visualRows_cons_stray hs, visualRows_cons_stray (hiff.mpr hs), hrest, List.map_cons,
          withReturns_cons hc, withReturns_nil]
      · obtain ⟨row, more, hv⟩ := List.exists_cons_of_ne_nil (visualRows_ne_nil s)
        rw [hv, List.map_cons] at hrest
        rw [visualRows_cons hc hs hv, visualRows_cons hc (mt hiff.mp hs) hrest, List.map_cons,
          withReturns_cons hc]

lemma dropFeed_concat {body : List Char} (h : '\r' ∉ body) : dropFeed (body ++ ['\n']) = body := by
  rcases List.eq_nil_or_concat body with rfl | ⟨front, c, rfl⟩
  · rfl
  · have hc : c ≠ '\r' := by
      rintro rfl
      simp at h
    unfold dropFeed
    split <;> simp_all

/-- The lines of a text do not depend on its line ends. -/
theorem lines_withReturns {s : List Char} (h : '\r' ∉ s) : lines (withReturns s) = lines s := by
  rw [lines, rows_withReturns, List.map_map, lines]
  refine List.map_congr_left fun row hrow => ?_
  have hreturn : '\r' ∉ row := fun hmem => h (mem_of_mem_rows hrow _ hmem)
  obtain ⟨body, hbody, rfl | rfl⟩ := mem_rows_cases hrow
  · rw [Function.comp_apply, withReturns_of_not_mem hbody]
  · have hclear : '\r' ∉ body := fun hmem => hreturn (by simp [hmem])
    rw [Function.comp_apply, withReturns_append, withReturns_of_not_mem hbody,
      dropFeed_concat hclear]
    simp [dropFeed]

/-- A text of one line. -/
lemma lines_of_not_mem {s : List Char} (hne : s ≠ []) (h : '\n' ∉ s) : lines s = [s] := by
  have hrows : rows s = [s] := by
    induction s with
    | nil => exact absurd rfl hne
    | cons c s ih =>
      rw [List.mem_cons, not_or] at h
      by_cases hs : s = []
      · simp [hs, rows, Ne.symm h.1]
      · rw [rows_cons (Ne.symm h.1) (ih hs h.2)]
  have hfeed : dropFeed s = s := by
    unfold dropFeed
    split <;> simp_all [List.reverse_eq_cons_iff]
  rw [lines, hrows, List.map_singleton, hfeed]

/-! ## What stands at the front -/

lemma head?_withReturns {s : List Char} {c : Char} (hf : c ≠ '\n') (hr : c ≠ '\r') :
    (withReturns s).head? = some c ↔ s.head? = some c := by
  cases s with
  | nil => rfl
  | cons d s =>
    by_cases hd : d = '\n'
    · simp [hd, hf.symm, hr.symm]
    · simp [hd]

lemma stripStart?_withReturns (lead s : List Char) (hf : '\n' ∉ lead) (hr : '\r' ∉ lead) :
    stripStart? lead (withReturns s) = (stripStart? lead s).map withReturns := by
  induction lead generalizing s with
  | nil => simp [stripStart?]
  | cons a lead ih =>
    rw [List.mem_cons, not_or] at hf hr
    cases s with
    | nil => rfl
    | cons c s =>
      by_cases hc : c = '\n'
      · simp [stripStart?, hc, Ne.symm hf.1, Ne.symm hr.1]
      · by_cases ha : a = c <;> simp [stripStart?, hc, ha, ih s hf.2 hr.2]

lemma isPrefixOf_eq_isSome (lead s : List Char) :
    lead.isPrefixOf s = (stripStart? lead s).isSome := by
  rw [Bool.eq_iff_iff, List.isPrefixOf_iff_prefix, Option.isSome_iff_exists]
  exact exists_congr fun rest => by rw [stripStart?_eq_some_iff, eq_comm]

lemma isPrefixOf_withReturns {lead : List Char} (hf : '\n' ∉ lead) (hr : '\r' ∉ lead)
    (s : List Char) : lead.isPrefixOf (withReturns s) = lead.isPrefixOf s := by
  rw [isPrefixOf_eq_isSome, isPrefixOf_eq_isSome, stripStart?_withReturns lead s hf hr,
    Option.isSome_map]

lemma feed_not_mem_take_of_isPrefixOf {lead s : List Char} (h : lead.isPrefixOf s = true)
    (hf : '\n' ∉ lead) : '\n' ∉ s.take lead.length := by
  rwa [← List.prefix_iff_eq_take.mp (List.isPrefixOf_iff_prefix.mp h)]

lemma feed_not_mem_take_one {s : List Char} {c : Char} (h : s.head? = some c) (hc : c ≠ '\n') :
    '\n' ∉ s.take 1 := by
  cases s with
  | nil => simp
  | cons d s =>
    obtain rfl : d = c := Option.some.inj h
    simpa using Ne.symm hc

lemma any_head?_withReturns {p : Char → Bool} (hf : p '\n' = false) (hr : p '\r' = false)
    (s : List Char) : (withReturns s).head?.any p = s.head?.any p := by
  cases s with
  | nil => rfl
  | cons c s => by_cases hc : c = '\n' <;> simp [hc, hf, hr]

/-! ## How far a scan reaches -/

/-- The length of the first `n` characters with the carriage returns among them. -/
def stretch (s : List Char) (n : Nat) : Nat := n + (s.take n).count '\n'

@[simp] theorem stretch_zero (s : List Char) : stretch s 0 = 0 := by simp [stretch]

lemma stretch_succ {c : Char} (hc : c ≠ '\n') (s : List Char) (n : Nat) :
    stretch (c :: s) (n + 1) = stretch s n + 1 := by
  simp only [stretch, List.take_succ_cons, List.count_cons_of_ne hc]
  omega

lemma stretch_succ_feed (s : List Char) (n : Nat) :
    stretch ('\n' :: s) (n + 1) = stretch s n + 2 := by
  simp only [stretch, List.take_succ_cons, List.count_cons_self]
  omega

lemma stretch_of_not_mem {s : List Char} {n : Nat} (h : '\n' ∉ s.take n) : stretch s n = n := by
  rw [stretch, List.count_eq_zero_of_not_mem h, Nat.add_zero]

lemma splitAt_stretch (s : List Char) (n : Nat) :
    (withReturns s).take (stretch s n) = withReturns (s.take n) ∧
      (withReturns s).drop (stretch s n) = withReturns (s.drop n) := by
  induction s generalizing n with
  | nil => simp
  | cons c s ih =>
    cases n with
    | zero => simp
    | succ n =>
      by_cases hc : c = '\n'
      · subst hc
        simpa [stretch_succ_feed] using ih n
      · simpa [stretch_succ hc, hc] using ih n

@[simp] theorem take_stretch (s : List Char) (n : Nat) :
    (withReturns s).take (stretch s n) = withReturns (s.take n) := (splitAt_stretch s n).1

@[simp] theorem drop_stretch (s : List Char) (n : Nat) :
    (withReturns s).drop (stretch s n) = withReturns (s.drop n) := (splitAt_stretch s n).2

lemma take_withReturns_of_not_mem {s : List Char} {n : Nat} (h : '\n' ∉ s.take n) :
    (withReturns s).take n = s.take n := by
  have htake := take_stretch s n
  rwa [stretch_of_not_mem h, withReturns_of_not_mem h] at htake

/-- One character further, where a line feed follows. -/
lemma splitAt_stretch_succ {s : List Char} {n : Nat} {after : List Char}
    (h : s.drop n = '\n' :: after) :
    (withReturns s).take (stretch s n + 1) = withReturns (s.take n) ++ ['\r'] ∧
      (withReturns s).drop (stretch s n + 1) = '\n' :: withReturns after := by
  rw [List.take_add, ← List.drop_drop, take_stretch, drop_stretch, h]
  exact ⟨rfl, rfl⟩

section scans

variable {p : Char → Bool}

lemma feed_not_mem_take_takeWhile (hf : p '\n' = false) (s : List Char) :
    '\n' ∉ s.take (s.takeWhile p).length := by
  rw [← List.prefix_iff_eq_take.mp (List.takeWhile_prefix p)]
  intro hmem
  have hp := List.mem_takeWhile_imp hmem
  simp [hf] at hp

/-- A scan that stops at either character does not see the difference. -/
lemma takeWhile_withReturns (hf : p '\n' = false) (hr : p '\r' = false) (s : List Char) :
    (withReturns s).takeWhile p = s.takeWhile p := by
  induction s with
  | nil => rfl
  | cons c s ih =>
    by_cases hc : c = '\n'
    · simp [hc, hf, hr]
    · simp [hc, List.takeWhile_cons, ih]

lemma dropWhile_withReturns (h : p '\r' = p '\n') (s : List Char) :
    (withReturns s).dropWhile p = withReturns (s.dropWhile p) := by
  induction s with
  | nil => rfl
  | cons c s ih =>
    by_cases hc : c = '\n'
    · subst hc
      by_cases hp : p '\n' = true
      · simp [h, hp, ih]
      · simp [h, hp]
    · by_cases hp : p c = true <;> simp [hc, hp, ih]

/-- What follows line ends begins with the same character. -/
lemma dropWhile_withReturns_cases (hf : p '\n' = true) (hr : p '\r' = true) (s : List Char) :
    s.dropWhile p = [] ∧ (withReturns s).dropWhile p = [] ∨
      ∃ c rest, s.dropWhile p = c :: rest ∧ (withReturns s).dropWhile p = c :: withReturns rest := by
  rw [dropWhile_withReturns (hr.trans hf.symm)]
  cases hdrop : s.dropWhile p with
  | nil => exact .inl ⟨rfl, rfl⟩
  | cons c rest =>
    have hc : c ≠ '\n' := by
      rintro rfl
      have hhead := List.head?_dropWhile_not p s
      simp [hdrop, hf] at hhead
    exact .inr ⟨c, rest, rfl, withReturns_cons hc rest⟩

/-- A scan that stops at neither takes all carriage returns along. -/
lemma length_takeWhile_withReturns (hf : p '\n' = true) (hr : p '\r' = true) (s : List Char) :
    ((withReturns s).takeWhile p).length = stretch s (s.takeWhile p).length := by
  induction s with
  | nil => rfl
  | cons c s ih =>
    by_cases hc : c = '\n'
    · subst hc
      simp [hf, hr, ih, stretch_succ_feed]
    · by_cases hp : p c = true
      · simp [hc, hp, ih, stretch_succ]
      · simp [hc, hp]

/-- The character at which it stops is no line feed. -/
lemma stretch_takeWhile_succ (hf : p '\n' = true) (s : List Char) :
    stretch s ((s.takeWhile p).length + 1) = stretch s (s.takeWhile p).length + 1 := by
  induction s with
  | nil => simp [stretch]
  | cons c s ih =>
    by_cases hc : c = '\n'
    · subst hc
      simp [hf, ih, stretch_succ_feed]
    · by_cases hp : p c = true
      · simp [hp, ih, stretch_succ hc]
      · simp [hp, stretch_succ hc]

/-- Two scans of a text, without and with carriage returns, reach equally far, or the second takes
along one more carriage return: that of the line feed at which both stop. -/
inductive Reaches (s : List Char) (n : Nat) : Nat → Prop
  | even : Reaches s n (stretch s n)
  | ahead (after : List Char) (h : s.drop n = '\n' :: after) : Reaches s n (stretch s n + 1)

lemma Reaches.cons {s : List Char} {n k : Nat} (h : Reaches s n k) {c : Char} (hc : c ≠ '\n') :
    Reaches (c :: s) (n + 1) (k + 1) := by
  cases h with
  | even => exact stretch_succ hc s n ▸ .even
  | ahead after h => exact stretch_succ hc s n ▸ .ahead after h

lemma Reaches.cons_feed {s : List Char} {n k : Nat} (h : Reaches s n k) :
    Reaches ('\n' :: s) (n + 1) (k + 2) := by
  cases h with
  | even => exact stretch_succ_feed s n ▸ .even
  | ahead after h =>
    have := Reaches.ahead (s := '\n' :: s) (n := n + 1) after h
    rwa [stretch_succ_feed] at this

/-- A scan that stops at the line feed only. -/
lemma reaches_takeWhile (hf : p '\n' = false) (hr : p '\r' = true) (s : List Char) :
    Reaches s (s.takeWhile p).length ((withReturns s).takeWhile p).length := by
  induction s with
  | nil => exact .even
  | cons c s ih =>
    by_cases hc : c = '\n'
    · subst hc
      have h := Reaches.ahead (s := '\n' :: s) (n := 0) s rfl
      simpa [hf, hr] using h
    · by_cases hp : p c = true
      · simpa [hc, hp] using ih.cons hc
      · simpa [hc, hp] using Reaches.even (s := c :: s) (n := 0)

end scans

end Foldmark.Text

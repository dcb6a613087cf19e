import Foldmark.Proofs.Text.Trimming
import Foldmark.Text.Lowercase
import Mathlib.Data.Nat.Basic

/-!
# Small letters

What the table of letter cases says about every character: its small form is small already and no
blank. The small form of a letter on its own and in a word are the same, but for two letters, the
capital i with a dot and a capital sigma at the end of a word. A word with such a letter is
`Distorted` by lowercasing: its small form cannot be compared with it one character at a time.
-/
namespace Foldmark.Text

/-! ## Runs of the table -/

namespace CaseRun

/-- The small letters of a run. -/
def small (run : CaseRun) : CaseRun where
  first := (run.first + run.shift).toNat
  last := (run.last + run.shift).toNat
  step := run.step
  shift := 0

/-- A test that two runs have no code in common: one ends before the other begins, or the codes of
one fall between those of the other. -/
def apart (a b : CaseRun) : Bool :=
  Nat.blt a.last b.first || Nat.blt b.last a.first ||
    (Nat.ble b.first a.first && (Nat.beq a.first a.last || Nat.beq (a.step % b.step) 0) &&
      Nat.blt 0 ((a.first - b.first) % b.step))

lemma covers_iff {run : CaseRun} {code : Nat} :
    run.covers code = true ↔
      run.first ≤ code ∧ code ≤ run.last ∧ (code - run.first) % run.step = 0 := by
  simp [covers, and_assoc]

lemma not_covers_of_apart {a b : CaseRun} (h : a.apart b = true) {code : Nat}
    (ha : a.covers code = true) : b.covers code = false := by
  rw [Bool.eq_false_iff]
  intro hb
  rw [covers_iff] at ha hb
  simp only [apart, Bool.or_eq_true, Bool.and_eq_true, Nat.blt_eq, Nat.ble_eq, Nat.beq_eq] at h
  rcases h with (h | h) | ⟨⟨hle, hstep⟩, hbetween⟩
  · omega
  · omega
  · -- the code is at a multiple of `b.step` from `a.first`, hence `a.first` from `b.first`
    have hdvd : b.step ∣ code - a.first := by
      rcases hstep with hone | hstep
      · have : code - a.first = 0 := by omega
        rw [this]
        exact Nat.dvd_zero _
      · exact Nat.dvd_trans (Nat.dvd_of_mod_eq_zero hstep) (Nat.dvd_of_mod_eq_zero ha.2.2)
    have hsplit : code - b.first = (code - a.first) + (a.first - b.first) := by omega
    have hdvd' : b.step ∣ a.first - b.first :=
      (Nat.dvd_add_right hdvd).mp (hsplit ▸ Nat.dvd_of_mod_eq_zero hb.2.2)
    have := Nat.mod_eq_zero_of_dvd hdvd'
    omega

lemma covers_small {run : CaseRun} (hfirst : 0 ≤ (run.first : Int) + run.shift) {code : Nat}
    (h : run.covers code = true) : run.small.covers (code + run.shift).toNat = true := by
  rw [covers_iff] at h ⊢
  have hsub : ((code + run.shift).toNat - run.small.first) = code - run.first := by
    simp only [small]
    omega
  refine ⟨?_, ?_, by rw [hsub]; exact h.2.2⟩
  · simp only [small]
    omega
  · simp only [small]
    omega

end CaseRun

/-- The codes of blanks. -/
def blankRuns : List CaseRun :=
  [⟨0x9, 0xd, 1, 0⟩, ⟨0x20, 0x20, 1, 0⟩, ⟨0x85, 0x85, 1, 0⟩, ⟨0xa0, 0xa0, 1, 0⟩,
    ⟨0x1680, 0x1680, 1, 0⟩, ⟨0x2000, 0x200a, 1, 0⟩, ⟨0x2028, 0x2029, 1, 0⟩,
    ⟨0x202f, 0x202f, 1, 0⟩, ⟨0x205f, 0x205f, 1, 0⟩, ⟨0x3000, 0x3000, 1, 0⟩]

/-- The codes of capital letters, of the capital i with a dot and of blanks. -/
def notSmallRuns : List CaseRun := ⟨0x130, 0x130, 1, 0⟩ :: blankRuns ++ lowercaseRuns

lemma exists_blankRun {c : Char} (h : isBlank c = true) :
    ∃ run ∈ blankRuns, run.covers c.toNat = true := by
  simp only [isBlank, Bool.or_eq_true, Bool.and_eq_true, decide_eq_true_eq, beq_iff_eq] at h
  simp only [blankRuns, List.mem_cons, List.not_mem_nil, or_false, exists_eq_or_imp,
    exists_eq_left, CaseRun.covers_iff]
  omega

/-- The codes of the small letters are codes of characters. -/
def CaseRun.isValid (run : CaseRun) : Bool :=
  decide (0 ≤ (run.first : Int) + run.shift) &&
    (Nat.blt run.small.last 0xd800 ||
      (Nat.blt 0xdfff run.small.first && Nat.blt run.small.last 0x110000))

lemma isValid_lowercaseRuns : (lowercaseRuns.all CaseRun.isValid) = true := by
  decide +kernel

lemma apart_lowercaseRuns :
    (lowercaseRuns.all fun run => notSmallRuns.all run.small.apart) = true := by
  decide +kernel

lemma apart_blankRuns : (blankRuns.all fun run => lowercaseRuns.all run.apart) = true := by
  decide +kernel

/-! ## One character -/

lemma lowerChar_dotted {c : Char} (h : c.toNat = 0x130) :
    lowerChar c = ['i', Char.ofNat 0x307] := by
  rw [lowerChar, if_pos h]

lemma lowerChar_of_uncovered {c : Char} (h : ∀ run ∈ notSmallRuns, run.covers c.toNat = false) :
    lowerChar c = [c] ∧ isBlank c = false := by
  have hdotted : c.toNat ≠ 0x130 := by
    intro hc
    have := h ⟨0x130, 0x130, 1, 0⟩ (by simp [notSmallRuns])
    simp [CaseRun.covers, hc] at this
  have hnone : lowercaseRuns.find? (·.covers c.toNat) = none := by
    rw [List.find?_eq_none]
    intro run hrun
    simp [h run (by simp [notSmallRuns, hrun])]
  refine ⟨by simp [lowerChar, hdotted, hnone], ?_⟩
  rw [Bool.eq_false_iff]
  intro hblank
  obtain ⟨run, hrun, hcovers⟩ := exists_blankRun hblank
  simp [h run (by simp [notSmallRuns, hrun])] at hcovers

/-- The small form of a character is one character, which is small itself, but for the capital i
with a dot. It is no blank unless the character is one. -/
theorem lowerChar_spec (c : Char) (h : c.toNat ≠ 0x130) :
    ∃ d, lowerChar c = [d] ∧ lowerChar d = [d] ∧ (isBlank d = true → isBlank c = true) := by
  cases hfind : lowercaseRuns.find? (·.covers c.toNat) with
  | none =>
    have hself : lowerChar c = [c] := by simp [lowerChar, h, hfind]
    exact ⟨c, hself, hself, id⟩
  | some run =>
    have hrun := List.mem_of_find?_eq_some hfind
    have hcovers := List.find?_some hfind
    have hvalid := List.all_eq_true.mp isValid_lowercaseRuns run hrun
    simp only [CaseRun.isValid, Bool.and_eq_true, Bool.or_eq_true, decide_eq_true_eq,
      Nat.blt_eq] at hvalid
    have hsmall := CaseRun.covers_small hvalid.1 hcovers
    have hbounds := CaseRun.covers_iff.mp hsmall
    have hchar : Nat.isValidChar (c.toNat + run.shift).toNat := by
      simp only [Nat.isValidChar]
      omega
    -- no run that is not small covers the code of the small form
    have hout : ∀ other ∈ notSmallRuns, other.covers (c.toNat + run.shift).toNat = false := by
      intro other hother
      have happart := List.all_eq_true.mp apart_lowercaseRuns run hrun
      exact CaseRun.not_covers_of_apart (List.all_eq_true.mp happart other hother) hsmall
    have hcode : (Char.ofNat (c.toNat + run.shift).toNat).toNat = (c.toNat + run.shift).toNat := by
      rw [Char.ofNat, dif_pos hchar]
      rfl
    obtain ⟨hself, hblank⟩ := lowerChar_of_uncovered (c := Char.ofNat (c.toNat + run.shift).toNat)
      (by rw [hcode]; exact hout)
    refine ⟨_, by simp [lowerChar, h, hfind], hself, ?_⟩
    simp [hblank]

/-- The small form of a character that is no blank has no blank. -/
lemma isBlank_of_mem_lowerChar {c d : Char} (hd : d ∈ lowerChar c) (hc : isBlank c = false) :
    isBlank d = false := by
  by_cases hdotted : c.toNat = 0x130
  · rw [lowerChar_dotted hdotted] at hd
    have hclear : ∀ e ∈ ['i', Char.ofNat 0x307], isBlank e = false :=
      List.forall_mem_cons.mpr ⟨by decide, List.forall_mem_singleton.mpr (by decide)⟩
    exact hclear d hd
  · obtain ⟨e, he, -, hblank⟩ := lowerChar_spec c hdotted
    rw [he, List.mem_singleton] at hd
    rw [hd, Bool.eq_false_iff]
    intro hb
    simp [hblank hb] at hc

lemma lowerChar_of_isBlank {c : Char} (h : isBlank c = true) : lowerChar c = [c] := by
  obtain ⟨run, hrun, hcovers⟩ := exists_blankRun h
  have hdotted : c.toNat ≠ 0x130 := by
    intro hc
    simp [isBlank, hc] at h
  have hnone : lowercaseRuns.find? (·.covers c.toNat) = none := by
    rw [List.find?_eq_none]
    intro other hother
    have happart := List.all_eq_true.mp (List.all_eq_true.mp apart_blankRuns run hrun) other hother
    simp [CaseRun.not_covers_of_apart happart hcovers]
  simp [lowerChar, hdotted, hnone]

/-- Of two characters with one small form both are blanks or none is. -/
lemma isBlank_of_lowerChar_eq {c d : Char} (h : lowerChar c = lowerChar d)
    (hd : isBlank d = false) : isBlank c = false := by
  by_contra hc
  have hself := lowerChar_of_isBlank (Bool.not_eq_false _ ▸ hc)
  have hmem : c ∈ lowerChar d := by
    rw [← h, hself]
    exact List.mem_singleton_self c
  exact hc (isBlank_of_mem_lowerChar hmem hd)

lemma lowerChar_ne_nil (c : Char) : lowerChar c ≠ [] := by
  by_cases hdotted : c.toNat = 0x130
  · simp [lowerChar_dotted hdotted]
  · obtain ⟨d, hd, -⟩ := lowerChar_spec c hdotted
    simp [hd]

lemma lowerChar_i : lowerChar 'i' = ['i'] := by decide

lemma lowerChar_capitalSigma : lowerChar capitalSigma = [smallSigma] := by decide

lemma lowerChar_finalSigma : lowerChar finalSigma = [finalSigma] := by decide

/-! ## Words -/

/-- Whether a letter, with the characters before it (nearest first) and behind it, has a small form
that is not one character or not the one that it has on its own. -/
def IsDistorted (before : List Char) (c : Char) (rest : List Char) : Prop :=
  c.toNat = 0x130 ∨ c = capitalSigma ∧ meetsLetter before = true ∧ meetsLetter rest = false

instance (before : List Char) (c : Char) (rest : List Char) :
    Decidable (IsDistorted before c rest) :=
  inferInstanceAs (Decidable (_ ∨ _ ∧ _ ∧ _))

/-- Some letter of a word is distorted by lowercasing, where the given characters stand before the
word. -/
def DistortedAfter (before word : List Char) : Prop :=
  ∃ front c rest, word = front ++ c :: rest ∧ IsDistorted (front.reverse ++ before) c rest

/-- Some letter of the word is distorted by lowercasing. -/
def Distorted (word : List Char) : Prop := DistortedAfter [] word

lemma distortedAfter_cons {before rest : List Char} {c : Char} :
    DistortedAfter before (c :: rest) ↔
      IsDistorted before c rest ∨ DistortedAfter (c :: before) rest := by
  constructor
  · rintro ⟨front, d, more, heq, hd⟩
    cases front with
    | nil =>
      obtain ⟨rfl, rfl⟩ := List.cons.inj heq
      exact .inl hd
    | cons b front =>
      obtain ⟨rfl, rfl⟩ := List.cons.inj heq
      exact .inr ⟨front, d, more, rfl, by simpa using hd⟩
  · rintro (hc | ⟨front, d, more, rfl, hd⟩)
    · exact ⟨[], c, rest, rfl, hc⟩
    · exact ⟨c :: front, d, more, rfl, by simpa using hd⟩

/-- The small form of a letter at its place. -/
def smallAt (before : List Char) (c : Char) (rest : List Char) : List Char :=
  if c = capitalSigma then
    if meetsLetter before && !meetsLetter rest then [finalSigma] else [smallSigma]
  else lowerChar c

lemma lowerAfter_cons (before : List Char) (c : Char) (rest : List Char) :
    lowerAfter before (c :: rest) = smallAt before c rest ++ lowerAfter (c :: before) rest := rfl

lemma smallAt_of_not_isDistorted {before rest : List Char} {c : Char}
    (h : ¬ IsDistorted before c rest) : smallAt before c rest = lowerChar c := by
  unfold smallAt
  split_ifs with hc hend
  · simp only [Bool.and_eq_true, Bool.not_eq_true'] at hend
    exact absurd (.inr ⟨hc, hend⟩) h
  · rw [hc, lowerChar_capitalSigma]
  · rfl

/-- At a distorted letter the first small character is not the small form of the letter. -/
lemma smallAt_of_isDistorted {before rest : List Char} {c : Char}
    (h : IsDistorted before c rest) :
    ∃ d more, smallAt before c rest = d :: more ∧ lowerChar c ≠ lowerChar d := by
  rcases h with hdotted | ⟨rfl, hend⟩
  · have hc : c ≠ capitalSigma := by
      rintro rfl
      exact absurd hdotted (by decide)
    refine ⟨'i', [Char.ofNat 0x307], ?_, ?_⟩
    · rw [smallAt, if_neg hc, lowerChar_dotted hdotted]
    · rw [lowerChar_dotted hdotted, lowerChar_i]
      decide
  · refine ⟨finalSigma, [], ?_, ?_⟩
    · simp [smallAt, hend]
    · rw [lowerChar_capitalSigma, lowerChar_finalSigma]
      decide

lemma smallAt_ne_nil (before : List Char) (c : Char) (rest : List Char) :
    smallAt before c rest ≠ [] := by
  by_cases h : IsDistorted before c rest
  · obtain ⟨d, more, hd, -⟩ := smallAt_of_isDistorted h
    simp [hd]
  · rw [smallAt_of_not_isDistorted h]
    exact lowerChar_ne_nil c

lemma isBlank_of_mem_smallAt {before rest : List Char} {c d : Char}
    (hd : d ∈ smallAt before c rest) (hc : isBlank c = false) : isBlank d = false := by
  unfold smallAt at hd
  split_ifs at hd
  · rw [List.mem_singleton.mp hd]
    decide
  · rw [List.mem_singleton.mp hd]
    decide
  · exact isBlank_of_mem_lowerChar hd hc

/-- The small form of a text ends with the small form of its last letter. -/
lemma exists_lowerAfter_concat (before word : List Char) (c : Char) :
    ∃ front, lowerAfter before (word ++ [c]) =
      front ++ smallAt (word.reverse ++ before) c [] := by
  induction word generalizing before with
  | nil => exact ⟨[], by simp [lowerAfter_cons, lowerAfter]⟩
  | cons b word ih =>
    obtain ⟨front, hfront⟩ := ih (b :: before)
    refine ⟨smallAt before b (word ++ [c]) ++ front, ?_⟩
    rw [List.cons_append, lowerAfter_cons, hfront]
    simp

lemma lower_ne_nil {word : List Char} (h : word ≠ []) : lower word ≠ [] := by
  obtain ⟨c, rest, rfl⟩ := List.exists_cons_of_ne_nil h
  rw [lower, lowerAfter_cons]
  simp [smallAt_ne_nil]

/-- A trimmed word is trimmed in its small form. -/
theorem isTrimmed_lower {word : List Char} (h : IsTrimmed word) : IsTrimmed (lower word) where
  front := by
    cases word with
    | nil => exact isTrimmed_nil.front
    | cons c rest =>
      intro d hd
      obtain ⟨e, more, he⟩ := List.exists_cons_of_ne_nil (smallAt_ne_nil [] c rest)
      rw [lower, lowerAfter_cons, he] at hd
      obtain rfl : e = d := by simpa using hd
      exact isBlank_of_mem_smallAt (he ▸ List.mem_cons_self) (h.front c rfl)
  back := by
    rcases List.eq_nil_or_concat word with rfl | ⟨word, c, rfl⟩
    · exact isTrimmed_nil.back
    · intro d hd
      obtain ⟨front, hfront⟩ := exists_lowerAfter_concat [] word c
      rw [lower, List.concat_eq_append, hfront,
        List.getLast?_append_of_ne_nil _ (smallAt_ne_nil _ _ _)] at hd
      exact isBlank_of_mem_smallAt (List.mem_of_mem_getLast? hd) (h.back c (by simp))

end Foldmark.Text

import Foldmark.Comment.Python
import Foldmark.Proofs.Comment.Returns

/-!
# Line ends in Python

The comments of a Python source are the same with and without carriage returns. A comment takes the
carriage return at its end along. A string is closed by the line feed, so the carriage return before it
still belongs to the string. An escaped line end is one escape either way.
-/
namespace Foldmark.Comment.Python

open Text

/-- A string ends with a quote. -/
def Frame.IsSound : Frame → Prop
  | .string quote _ _ _ => quote = '\x22' ∨ quote = '\x27'
  | _ => True

def State.IsSound (state : State) : Prop := ∀ frame ∈ state.frames, frame.IsSound

/-! ## Sound states -/

lemma isSound_codeStep {frames : List Frame} (h : ∀ frame ∈ frames, frame.IsSound)
    (lead : List Char) (c : Char) (rest : List Char) :
    (codeStep frames lead c rest).state.IsSound := by
  unfold codeStep
  split_ifs with hsign hquote
  · exact h
  · exact List.forall_mem_cons.mpr ⟨hquote, h⟩
  · exact h
  · exact h

lemma isSound_rule {state : State} (h : state.IsSound) (c : Char) (rest : List Char) :
    (rule state c rest).state.IsSound := by
  obtain ⟨frames, lead⟩ := state
  cases frames with
  | nil => exact isSound_codeStep h lead c rest
  | cons frame outer =>
    have houter : ∀ f ∈ outer, f.IsSound := fun f hf => h f (List.mem_cons_of_mem _ hf)
    cases frame with
    | string quote triple formatted raw =>
      simp only [rule, stringStep]
      split_ifs
      · exact h
      · exact houter
      · exact houter
      · exact houter
      · exact h
      · exact List.forall_mem_cons.mpr ⟨trivial, h⟩
      · exact h
    | field depth =>
      simp only [rule, fieldStep]
      split_ifs
      · exact List.forall_mem_cons.mpr ⟨trivial, houter⟩
      · exact houter
      · exact List.forall_mem_cons.mpr ⟨trivial, houter⟩
      · exact List.forall_mem_cons.mpr ⟨trivial, houter⟩
      · exact isSound_codeStep h lead c rest
    | spec =>
      simp only [rule, specStep]
      split_ifs
      · exact List.forall_mem_cons.mpr ⟨trivial, h⟩
      · exact houter
      · exact h

/-! ## Line ends -/

/-- The frames behind a line end, where a line feed closes a string of one line. -/
def framesAfter (c : Char) : List Frame → List Frame
  | .string quote false formatted raw :: outer =>
    if c = '\n' then outer else .string quote false formatted raw :: outer
  | frames => frames

lemma codeStep_break (frames : List Frame) (lead rest : List Char) {c : Char}
    (hc : c = '\n' ∨ c = '\r') : codeStep frames lead c rest = { state := ⟨frames, []⟩ } := by
  rcases hc with rfl | rfl <;> rfl

lemma rule_break {state : State} (h : state.IsSound) {c : Char} (hc : c = '\n' ∨ c = '\r')
    (rest : List Char) : rule state c rest = { state := ⟨framesAfter c state.frames, []⟩ } := by
  obtain ⟨frames, lead⟩ := state
  cases frames with
  | nil => exact codeStep_break [] lead rest hc
  | cons frame outer =>
    cases frame with
    | string quote triple formatted raw =>
      have hquote : c ≠ quote := by
        rcases hc with rfl | rfl <;>
          rcases h _ List.mem_cons_self with rfl | rfl <;> decide
      rcases hc with rfl | rfl <;> cases triple <;> simp [rule, stringStep, framesAfter, hquote]
    | field depth => rcases hc with rfl | rfl <;> rfl
    | spec => rcases hc with rfl | rfl <;> rfl

lemma after_break {state : State} (h : state.IsSound) {c : Char} (hc : c = '\n' ∨ c = '\r') :
    Rule.after rule state c = ⟨framesAfter c state.frames, []⟩ :=
  congrArg Step.state (rule_break h hc [])

lemma framesAfter_return (frames : List Frame) : framesAfter '\r' frames = frames := by
  unfold framesAfter
  split <;> rfl

/-! ## Pieces -/

/-- Away from names in braces and line ends an escape takes one character or none. -/
lemma escapeLength_cons (quote : Char) (formatted raw : Bool) {c : Char} {rest : List Char}
    (hname : c = 'N' → rest.head? ≠ some '\x7b') (hr : c ≠ '\r') :
    escapeLength quote formatted raw (c :: rest) =
      if c = quote ∨ c = '\\' ∨ c = '\n' then 1 else 0 := by
  unfold escapeLength
  split <;> simp_all

lemma escapeLength_withReturns (quote : Char) (formatted raw : Bool) {rest : List Char}
    (h : '\r' ∉ rest) :
    escapeLength quote formatted raw (withReturns rest) =
      stretch rest (escapeLength quote formatted raw rest) := by
  cases rest with
  | nil => simp [escapeLength]
  | cons c rest =>
    rw [List.mem_cons, not_or] at h
    by_cases hc : c = '\n'
    · subst hc
      have hlength : escapeLength quote formatted raw ('\n' :: rest) = 1 := by
        simp [escapeLength_cons]
      rw [withReturns_feed, hlength, stretch_succ_feed, stretch_zero]
      rfl
    · by_cases hname : c = 'N' ∧ rest.head? = some '\x7b'
      · obtain ⟨rfl, hhead⟩ := hname
        obtain ⟨name, rfl⟩ : ∃ name, rest = '\x7b' :: name := ⟨_, (List.cons_head?_tail hhead).symm⟩
        have hbrace : ('\x7b' : Char) ≠ '\n' := by decide
        have hlength := length_takeWhile_withReturns (p := (· != '\x7d')) rfl rfl name
        have hsucc := stretch_takeWhile_succ (p := (· != '\x7d')) rfl name
        rw [withReturns_cons hc, withReturns_cons hbrace]
        simp only [escapeLength, hlength]
        split_ifs
        · have hthree : 3 + (name.takeWhile (· != '\x7d')).length =
              (name.takeWhile (· != '\x7d')).length + 1 + 1 + 1 := by omega
          rw [hthree, stretch_succ hc, stretch_succ hbrace, hsucc]
          omega
        · rw [stretch_succ hc, stretch_zero]
      · have hhead : c = 'N' → (withReturns rest).head? ≠ some '\x7b' := by
          rw [Ne, head?_withReturns (by decide) (by decide)]
          simpa using hname
        rw [withReturns_cons hc, escapeLength_cons quote formatted raw hhead (Ne.symm h.1),
          escapeLength_cons quote formatted raw (by simpa using hname) (Ne.symm h.1)]
        split_ifs
        · rw [stretch_succ hc, stretch_zero]
        · rw [stretch_zero]

lemma agrees_codeStep (frames : List Frame) (lead : List Char) (c : Char) (rest : List Char) :
    Agrees rule rest (codeStep frames lead c rest) (codeStep frames lead c (withReturns rest)) := by
  by_cases hsign : c = '#'
  · simp only [codeStep, if_pos hsign]
    exact .of_reaches { isComment := true, more := _, state := _ }
      (reaches_takeWhile (by decide) (by decide) rest)
      fun _ => feed_not_mem_take_takeWhile (by decide) rest
  · by_cases hquote : c = '\x22' ∨ c = '\x27'
    · have hbreak : '\n' ∉ [c, c] ∧ '\r' ∉ [c, c] := by rcases hquote with rfl | rfl <;> decide
      refine .of_eq ?_ ?_
      · simp only [codeStep, if_neg hsign, if_pos hquote,
          isPrefixOf_withReturns hbreak.1 hbreak.2]
      · simp only [codeStep, if_neg hsign, if_pos hquote]
        split_ifs with htriple
        · exact feed_not_mem_take_of_isPrefixOf htriple hbreak.1
        · simp
    · simp only [codeStep, if_neg hsign, if_neg hquote]
      exact .of_eq rfl (by simp)

lemma agrees_stringStep (quote : Char) (triple formatted raw : Bool) (outer : List Frame) {c : Char}
    (hf : c ≠ '\n') (hr : c ≠ '\r') {rest : List Char} (h : '\r' ∉ rest) :
    Agrees rule rest (stringStep quote triple formatted raw outer c rest)
      (stringStep quote triple formatted raw outer c (withReturns rest)) := by
  by_cases hescape : c = '\\'
  · simp only [stringStep, if_pos hescape, escapeLength_withReturns quote formatted raw h]
    exact .even
  · have hpair : '\n' ∉ [c, c] ∧ '\r' ∉ [c, c] := by simp [hf.symm, hr.symm]
    refine .of_eq ?_ ?_
    · simp only [stringStep, if_neg hescape, isPrefixOf_withReturns hpair.1 hpair.2,
        head?_withReturns hf hr]
    · simp only [stringStep, if_neg hescape]
      split_ifs with hclose htriple hline hbrace hfield
      · simp
      · exact feed_not_mem_take_of_isPrefixOf htriple.2 hpair.1
      · simp
      · exact feed_not_mem_take_one hbrace.2.2 hf
      · simp
      · simp

lemma agrees_fieldStep (depth : Nat) (outer : List Frame) (lead : List Char) (c : Char)
    (rest : List Char) :
    Agrees rule rest (fieldStep depth outer lead c rest)
      (fieldStep depth outer lead c (withReturns rest)) := by
  simp only [fieldStep]
  split_ifs
  · exact .of_eq rfl (by simp)
  · exact .of_eq rfl (by simp)
  · exact .of_eq rfl (by simp)
  · exact .of_eq rfl (by simp)
  · exact agrees_codeStep _ lead c rest

lemma agrees_specStep (outer : List Frame) (c : Char) (rest : List Char) :
    Agrees rule rest (specStep outer c) (specStep outer c) := by
  refine .of_eq rfl ?_
  unfold specStep
  split_ifs <;> simp

/-- The comments of Python do not depend on line ends. -/
theorem ignoresReturns : IgnoresReturns rule State.IsSound where
  good state c rest h := isSound_rule h c rest
  breaks state c rest h hc := by
    rw [after_break h hc, rule_break h hc]
  after_return state h := by
    have hafter := after_break h (.inr rfl)
    have hsound : State.IsSound ⟨framesAfter '\r' state.frames, []⟩ :=
      hafter ▸ isSound_rule h '\r' []
    rw [hafter, after_break hsound (.inl rfl), after_break h (.inl rfl), framesAfter_return]
  agrees state c rest _ hf hr hrest := by
    obtain ⟨frames, lead⟩ := state
    cases frames with
    | nil => exact agrees_codeStep [] lead c rest
    | cons frame outer =>
      cases frame with
      | string quote triple formatted raw =>
        exact agrees_stringStep quote triple formatted raw outer hf hr hrest
      | field depth => exact agrees_fieldStep depth outer lead c rest
      | spec => exact agrees_specStep outer c rest

end Foldmark.Comment.Python

import Foldmark.Proofs.Comment.Scanners
import Foldmark.Proofs.Text.Returns
import Foldmark.Proofs.Text.Trimming

/-!
# Comments and line ends

A source is parsed twice, as it is and with a carriage return before every line feed. If the comments
are the same but for their line ends (`Corresponds`), so are the comment lines but for blanks at their
ends, whatever the parser.

For a scanner, what a language has to do for this is said of a single step (`IgnoresReturns`): both runs
are in the same state, and the pieces of the second are those of the first with carriage returns among
them. The runs fall out of step only inside a line end, where one piece takes a carriage return and the
other run has none, and the line feed behind it brings them together again.
-/
namespace Foldmark

/-- A comment line without blanks at its ends. -/
def CommentLine.trimmed (entry : CommentLine) : CommentLine :=
  { entry with text := String.ofList (Text.trim entry.text.toList) }

namespace Comment

open Text

/-! ## Comment lines -/

/-- Two comments on one line whose texts differ in line ends only. A comment of one line may have
taken the carriage return behind it along. -/
structure Corresponds (a b : Nat × List Char) : Prop where
  line : b.1 = a.1
  text : b.2 = withReturns a.2 ∨ a.2 ≠ [] ∧ '\n' ∉ a.2 ∧ b.2 = a.2 ++ ['\r']

/-- Corresponding comments have the same lines, but for a carriage return at the end. -/
lemma Corresponds.map_trimmed_entries {a b : Nat × List Char} (h : Corresponds a b)
    (hclear : '\r' ∉ a.2) :
    (entries b.1 b.2).map CommentLine.trimmed = (entries a.1 a.2).map CommentLine.trimmed := by
  rw [h.line]
  rcases h.text with htext | ⟨hne, hfeed, htext⟩
  · rw [htext, entries, Text.lines_withReturns hclear, entries]
  · have hlines : Text.lines b.2 = [a.2 ++ ['\r']] := by
      rw [htext]
      exact lines_of_not_mem (by simp) (by simp [hfeed])
    have htrim : trim (a.2 ++ ['\r']) = trim a.2 := trim_concat_blank (by decide) a.2
    simp [entries, hlines, lines_of_not_mem hne hfeed, CommentLine.trimmed, htrim]

lemma map_trimmed_flatMap {comments comments' : List (Nat × List Char)}
    (h : List.Forall₂ Corresponds comments comments')
    (hclear : ∀ comment ∈ comments, '\r' ∉ comment.2) :
    (comments'.flatMap fun comment => entries comment.1 comment.2).map CommentLine.trimmed =
      (comments.flatMap fun comment => entries comment.1 comment.2).map CommentLine.trimmed := by
  induction h with
  | nil => rfl
  | cons hab _ ih =>
    rw [List.forall_mem_cons] at hclear
    rw [List.flatMap_cons, List.map_append, hab.map_trimmed_entries hclear.1, ih hclear.2,
      List.flatMap_cons, List.map_append]

lemma mem_of_mem_found {kinds : List String} {source : List Char} {tree : Forest}
    {comment : Nat × List Char} (h : comment ∈ found kinds source tree) {c : Char}
    (hc : c ∈ comment.2) : c ∈ source := by
  obtain ⟨span, -, rfl⟩ := List.mem_map.mp h
  exact List.mem_of_mem_drop (List.mem_of_mem_take hc)

/-- The comment lines of a source do not depend on its line ends, but for blanks around them. -/
theorem map_trimmed_lines {kinds : List String} {source : List Char} {tree tree' : Forest}
    (hs : '\r' ∉ source)
    (h : List.Forall₂ Corresponds (found kinds source tree)
      (found kinds (withReturns source) tree')) :
    (lines kinds (withReturns source) tree').map CommentLine.trimmed =
      (lines kinds source tree).map CommentLine.trimmed := by
  have hfound := map_trimmed_flatMap h fun _ hcomment hmem => hs (mem_of_mem_found hcomment hmem)
  have hdedup : ∀ entries : List CommentLine, (dedupBy CommentLine.line entries).map
      CommentLine.trimmed = dedupBy CommentLine.line (entries.map CommentLine.trimmed) :=
    fun entries => (dedupBy_map CommentLine.line CommentLine.line CommentLine.trimmed entries
      fun _ _ _ _ => Iff.rfl).symm
  simp only [lines, hdedup, hfound]

/-! ## Steps of a scanner -/

variable {σ : Type} {rule : Rule σ} {Good : σ → Prop}

/-- The state after a character that is a piece of its own. -/
def Rule.after (rule : Rule σ) (state : σ) (c : Char) : σ := (rule state c []).state

/-- The steps of two runs at one character, where carriage returns are put into `rest` for the
second. -/
inductive Agrees (rule : Rule σ) (rest : List Char) (step : Step σ) : Step σ → Prop
  | even : Agrees rule rest step { step with more := stretch rest step.more }
  /-- The piece stops at a line feed and takes the carriage return before it along. -/
  | ahead (after : List Char) (hrest : rest.drop step.more = '\n' :: after)
      (hline : step.isComment = true → '\n' ∉ rest.take step.more) :
      Agrees rule rest step { step with more := stretch rest step.more + 1 }
  /-- The piece ends with a line feed, or only with the carriage return before it. -/
  | behind (after : List Char) (hrest : rest = '\n' :: after) (hmore : step.more = 1)
      (hcode : step.isComment = false) (hstate : Rule.after rule step.state '\n' = step.state) :
      Agrees rule rest step step

lemma Agrees.of_eq {rest : List Char} {step step' : Step σ} (heq : step' = step)
    (h : '\n' ∉ rest.take step.more) : Agrees rule rest step step' := by
  have heven : Agrees rule rest step { step with more := stretch rest step.more } := .even
  rw [stretch_of_not_mem h] at heven
  exact heq ▸ heven

lemma Agrees.of_reaches {rest : List Char} (step : Step σ) {more : Nat}
    (h : Reaches rest step.more more)
    (hline : step.isComment = true → '\n' ∉ rest.take step.more) :
    Agrees rule rest step { step with more } := by
  cases h with
  | even => exact .even
  | ahead after hafter => exact .ahead after hafter hline

/-- A rule that finds the same comments with and without carriage returns, as long as the states meet
a condition that the rule keeps. -/
structure IgnoresReturns (rule : Rule σ) (Good : σ → Prop) : Prop where
  good : ∀ state c rest, Good state → Good (rule state c rest).state
  breaks : ∀ state c rest, Good state → c = '\n' ∨ c = '\r' →
    rule state c rest = { state := Rule.after rule state c }
  after_return : ∀ state, Good state →
    Rule.after rule (Rule.after rule state '\r') '\n' = Rule.after rule state '\n'
  agrees : ∀ state c rest, Good state → c ≠ '\n' → c ≠ '\r' → '\r' ∉ rest →
    Agrees rule rest (rule state c rest) (rule state c (withReturns rest))

/-! ## The two runs -/

lemma located_cons {piece piece' : Piece} {pieces pieces' : List Piece} {line : Nat}
    (hkind : piece'.isComment = piece.isComment)
    (htext : piece.isComment = true → Corresponds (line, piece.text) (line, piece'.text))
    (hlater : List.Forall₂ Corresponds (located (line + piece.text.count '\n') pieces)
      (located (line + piece'.text.count '\n') pieces')) :
    List.Forall₂ Corresponds (located line (piece :: pieces)) (located line (piece' :: pieces')) := by
  simp only [located, hkind]
  split_ifs with hc
  · exact .cons (htext hc) hlater
  · exact hlater

namespace IgnoresReturns

lemma good_after (h : IgnoresReturns rule Good) {state : σ} (hg : Good state) (c : Char) :
    Good (Rule.after rule state c) := h.good state c [] hg

lemma located_feed (h : IgnoresReturns rule Good) {state : σ} (hg : Good state) (line : Nat)
    (rest : List Char) :
    located line (cut rule state ('\n' :: rest)) =
      located (line + 1) (cut rule (Rule.after rule state '\n') rest) := by
  rw [cut]
  simp [h.breaks state '\n' rest hg (.inl rfl), located]

/-- A carriage return before a line feed makes no difference. -/
lemma located_return (h : IgnoresReturns rule Good) {state : σ} (hg : Good state) (line : Nat)
    (rest : List Char) :
    located line (cut rule state ('\r' :: '\n' :: rest)) =
      located line (cut rule state ('\n' :: rest)) := by
  have hreturn : located line (cut rule state ('\r' :: '\n' :: rest)) =
      located line (cut rule (Rule.after rule state '\r') ('\n' :: rest)) := by
    rw [cut]
    simp [h.breaks state '\r' ('\n' :: rest) hg (.inr rfl), located]
  rw [hreturn, h.located_feed (h.good_after hg '\r'), h.after_return state hg, h.located_feed hg]

/-- Both runs find corresponding comments. The induction is on the cuts of the first run. -/
theorem located_withReturns (h : IgnoresReturns rule Good) (state : σ) (hg : Good state)
    (line : Nat) (source : List Char) (hs : '\r' ∉ source) :
    List.Forall₂ Corresponds (located line (cut rule state source))
      (located line (cut rule state (withReturns source))) := by
  fun_induction cut rule state source generalizing line with
  | case1 => simp [cut, located]
  | case2 state c rest step ih =>
    rw [List.mem_cons, not_or] at hs
    obtain ⟨hc, hrest⟩ := hs
    have hdrop : '\r' ∉ rest.drop step.more := fun hmem => hrest (List.mem_of_mem_drop hmem)
    have hgood : Good step.state := h.good state c rest hg
    have ih := fun line => ih hgood line hdrop
    by_cases hfeed : c = '\n'
    · subst hfeed
      have hstep : step = { state := Rule.after rule state '\n' } :=
        h.breaks state '\n' rest hg (.inl rfl)
      rw [withReturns_feed, h.located_return hg, h.located_feed hg]
      simpa [hstep, located] using ih (line + 1)
    · have hagrees : Agrees rule rest step (rule state c (withReturns rest)) :=
        h.agrees state c rest hg hfeed (Ne.symm hc) hrest
      rw [withReturns_cons hfeed, cut]
      clear_value step
      generalize rule state c (withReturns rest) = step' at hagrees ⊢
      cases hagrees with
      | even =>
        have htext : c :: (withReturns rest).take (stretch rest step.more) =
            withReturns (c :: rest.take step.more) := by simp [hfeed]
        refine located_cons rfl (fun _ => ⟨rfl, .inl htext⟩) ?_
        simpa only [htext, count_withReturns, drop_stretch] using ih _
      | ahead after hafter hline =>
        -- the carriage return is in the piece, and only the line feed is left of the line end
        obtain ⟨htake, hrest'⟩ := splitAt_stretch_succ hafter
        have htext : c :: (withReturns rest).take (stretch rest step.more + 1) =
            withReturns (c :: rest.take step.more) ++ ['\r'] := by simp [hfeed, htake]
        refine located_cons rfl (fun hcomment => ⟨rfl, .inr ⟨List.cons_ne_nil _ _, ?_⟩⟩) ?_
        · have hbody : '\n' ∉ c :: rest.take step.more := by
            simpa [Ne.symm hfeed] using hline hcomment
          exact ⟨hbody, by simpa only [withReturns_of_not_mem hbody] using htext⟩
        · have ih := ih (line + (c :: rest.take step.more).count '\n')
          rw [hafter, withReturns_feed, h.located_return hgood] at ih
          simpa [htext, hrest', hafter, count_withReturns] using ih
      | behind after hafter hmore hcode hstate =>
        -- the line feed is in the piece of the first run and still to be read in the second
        subst hafter
        refine located_cons rfl (fun hcomment => absurd hcomment (by simp [hcode])) ?_
        have ih := ih (line + 1)
        have hlater : located line (cut rule step.state ('\n' :: withReturns after)) =
            located (line + 1) (cut rule step.state (withReturns after)) := by
          rw [h.located_feed hgood, hstate]
        simpa [hmore, hfeed, hlater] using ih

end IgnoresReturns

end Comment

end Foldmark

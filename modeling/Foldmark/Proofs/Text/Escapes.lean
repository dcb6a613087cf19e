import Foldmark.Text.Styled
import Mathlib.Data.List.TakeWhile

/-!
# Deleting escape sequences

An escape sequence is an escape character, a bracket, a number and the letter `m`. Styles are shown by
such sequences, so deleting all of them from a coloured text gives the plain text, unless the text has
an escape character of its own.
-/
namespace Foldmark.Text

/-- The number of characters of an escape sequence behind its escape character, zero where there is no
sequence. -/
def sequenceLength : List Char → Nat
  | '[' :: rest =>
    let digits := rest.takeWhile Char.isDigit
    if digits ≠ [] ∧ (rest.drop digits.length).head? = some 'm' then digits.length + 2 else 0
  | _ => 0

/-- Deletes every escape sequence. -/
def withoutEscapes : List Char → List Char
  | [] => []
  | c :: rest =>
    if c = escapeChar ∧ 0 < sequenceLength rest then
      withoutEscapes (rest.drop (sequenceLength rest))
    else c :: withoutEscapes rest
  termination_by s => s.length
  decreasing_by all_goals simp only [List.length_drop, List.length_cons]; omega

def decoloured (s : String) : String :=
  String.ofList (withoutEscapes s.toList)

/-- A text without escape characters stays as it is. -/
lemma withoutEscapes_append {text : List Char} (h : escapeChar ∉ text) (s : List Char) :
    withoutEscapes (text ++ s) = text ++ withoutEscapes s := by
  induction text with
  | nil => rfl
  | cons c text ih =>
    rw [List.mem_cons, not_or] at h
    rw [List.cons_append, withoutEscapes, if_neg fun hc => h.1 hc.1.symm, ih h.2, List.cons_append]

lemma sequenceLength_digits {digits : List Char} (hne : digits ≠ [])
    (hdigit : ∀ c ∈ digits, c.isDigit = true) (s : List Char) :
    sequenceLength ('[' :: (digits ++ 'm' :: s)) = digits.length + 2 := by
  have htake : (digits ++ 'm' :: s).takeWhile Char.isDigit = digits := by
    rw [List.takeWhile_append_of_pos hdigit]
    simp
  simp only [sequenceLength, htake, List.drop_left, List.head?_cons]
  exact if_pos ⟨hne, trivial⟩

lemma withoutEscapes_escape (style : Style) (s : List Char) :
    withoutEscapes (style.escape ++ s) = withoutEscapes s := by
  have hlength := sequenceLength_digits (Nat.toDigits_ne_nil (b := 10) (n := style.code))
    (fun c hc => Nat.isDigit_of_mem_toDigits (by decide) (by decide) hc) s
  have hsplit : style.escape ++ s =
      escapeChar :: '[' :: (Nat.toDigits 10 style.code ++ 'm' :: s) := by
    simp [Style.escape]
  rw [hsplit, withoutEscapes, hlength, if_pos ⟨rfl, Nat.succ_pos _⟩]
  simp

namespace Styled

/-- Without its escape sequences a coloured text is the plain text. -/
theorem withoutEscapes_coloured {pieces : Styled} (h : escapeChar ∉ pieces.plain) :
    withoutEscapes pieces.coloured = pieces.plain := by
  induction pieces with
  | nil => rw [coloured, plain, List.flatMap_nil, List.flatMap_nil, withoutEscapes]
  | cons piece pieces ih =>
    cases piece with
    | style style =>
      rw [coloured, List.flatMap_cons, withoutEscapes_escape]
      exact ih h
    | text text =>
      rw [plain, List.flatMap_cons, List.mem_append, not_or] at h
      rw [coloured, List.flatMap_cons, withoutEscapes_append h.1]
      exact congrArg (text ++ ·) (ih h.2)

example : decoloured "\x1b[2m 1\x1b[0m \x1b[mx\x1b[1;3m" = " 1 \x1b[mx\x1b[1;3m" := by cbv

lemma decoloured_render {pieces : Styled} (h : escapeChar ∉ pieces.plain) :
    decoloured (pieces.render true) = pieces.render false := by
  rw [decoloured, render, if_pos rfl, String.toList_ofList, withoutEscapes_coloured h]
  rfl

end Styled

end Foldmark.Text

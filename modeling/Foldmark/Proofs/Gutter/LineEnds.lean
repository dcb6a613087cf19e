import Foldmark.Proofs.Gutter.Layout
import Foldmark.Proofs.Text.Returns

/-!
# Views and line ends

The view of a source does not depend on its line ends. A carriage return before every line feed leaves
the number of lines as it is, and with it the width of the numbers and how many rows are shown. It
stands at the end of a row, where it is not shown, whatever else the text view breaks rows at.
-/
namespace Foldmark

namespace Text

/-- What is shown of a row has no line end, so a carriage return there does not matter. -/
lemma dropReturns_withReturns {s row : List Char} (h : row ∈ visualRows s) :
    dropReturns (withReturns row) = dropReturns row := by
  obtain ⟨body, hbody, hrow⟩ := mem_visualRows_cases h
  have hdrop : ∀ (c : Char) (front : List Char), isReturn c = true →
      dropReturns (front ++ [c]) = dropReturns front :=
    fun c front hc => List.rdropWhile_concat_pos isReturn front c hc
  rcases hrow with rfl | rfl
  · rw [withReturns_of_not_mem hbody]
  · have hreturns : withReturns (body ++ ['\n']) = body ++ ['\r'] ++ ['\n'] := by
      rw [withReturns_append, withReturns_of_not_mem hbody]
      simp
    rw [hreturns, hdrop '\n' _ rfl, hdrop '\r' _ rfl, hdrop '\n' _ rfl]

end Text

namespace Gutter

open Text

/-- Row by row the same is shown. -/
lemma texts_withReturns {s : List Char} (h : '\r' ∉ s) : texts (withReturns s) = texts s := by
  rw [texts, texts, lineCount_withReturns, visualRows_withReturns h, ← List.map_take, List.map_map]
  refine List.map_congr_left fun row hrow => ?_
  exact dropReturns_withReturns (List.mem_of_mem_take hrow)

lemma view_withReturns (labels : Bool) {source : String} (h : '\r' ∉ source.toList)
    (outline : Outline) :
    view labels (String.ofList (withReturns source.toList)) outline =
      view labels source outline := by
  simp only [view, String.toList_ofList, texts_withReturns h]

/-- A carriage return before every line feed changes nothing of a view, with colours or without,
whatever other breaks the source has. Where the number of lines of every region fits a counter and no
level is too high, there is a view to compare. -/
theorem render_withReturns (labels colour : Bool) (source : String) (outline : Outline)
    (h : '\r' ∉ source.toList) :
    render labels colour (String.ofList (withReturns source.toList)) outline =
        render labels colour source outline ∧
      ((∀ r ∈ outline.regions, ∃ count, r.lineCount = .ok count) →
        outline.LevelsFit (lines source.toList).length →
          ∃ shown, render labels colour source outline = .ok shown) := by
  refine ⟨?_, fun hcount hlevels => ?_⟩
  · simp only [render, view_withReturns labels h, String.toList_ofList, lineCount_withReturns]
  · rw [length_lines] at hlevels
    rw [render_eq hcount]
    exact ⟨_, if_pos hlevels⟩

/-- A form feed at the end of a line, a separator inside one, and a last line without an end. -/
def brokenLines : String := "one\x0c\ntwo\u2028three\n\nfour"

theorem render_withReturns_broken :
    '\r' ∉ brokenLines.toList ∧
      (∀ r ∈ notedOutline.regions, ∃ count, r.lineCount = .ok count) ∧
      notedOutline.LevelsFit (lines brokenLines.toList).length ∧
      ∃ shown, render true true brokenLines notedOutline = .ok shown ∧
        render true true "one\x0c\r\ntwo\u2028three\r\n\r\nfour" notedOutline = .ok shown := by
  have hclear : '\r' ∉ brokenLines.toList := by decide
  have hcount : ∀ r ∈ notedOutline.regions, ∃ count, r.lineCount = .ok count := by
    simp only [notedOutline, List.forall_mem_cons]
    exact ⟨⟨3, rfl⟩, ⟨2, rfl⟩, by simp⟩
  have hlevels : notedOutline.LevelsFit (lines brokenLines.toList).length := by decide
  have hreturns : String.ofList (withReturns brokenLines.toList) =
      "one\x0c\r\ntwo\u2028three\r\n\r\nfour" := by decide
  obtain ⟨hsame, hfits⟩ := render_withReturns true true brokenLines notedOutline hclear
  obtain ⟨shown, hshown⟩ := hfits hcount hlevels
  rw [hreturns, hshown] at hsame
  exact ⟨hclear, hcount, hlevels, shown, hshown, hsame⟩

end Gutter

end Foldmark

import Foldmark.Proofs.Gutter.Layout
import Foldmark.Proofs.Path.Display
import Foldmark.Proofs.Text.Escapes
import Foldmark.Report.Format

/-!
# Colours

Views and listings are shown with and without colours. The colours add escape sequences and nothing
else: deleting these sequences gives the plain text, where no text that is shown has an escape
character of its own. A view or listing that cannot be shown fails in the same way with and without
colours. The rows of a view are printed in two ways, which are one layout with and without its styles
(`Row.pieces`).
-/
namespace Foldmark

open Text

lemma Text.isControl_escapeChar : IsControl escapeChar := by decide

/-- A path is shown with an escape character only if it has one. -/
lemma Path.escape_not_mem_display {path : Path} (h : 0x1b ∉ path.octets) :
    escapeChar ∉ path.display.toList := by
  intro hmem
  have hplain : Utf8.IsPlain 0x1b := by decide
  have hoctet : 0x1b ∈ Utf8.encode path.display.toList := List.mem_flatMap.mpr ⟨_, hmem, by decide⟩
  rw [encode_display] at hoctet
  obtain ⟨t, u, htu⟩ := List.append_of_mem hoctet
  obtain ⟨a, c, heq, -⟩ := Utf8.exists_of_shown_eq hplain htu
  simp [heq] at h

lemma Text.Styled.mem_plain_flatten {c : Char} {parts : List Styled} :
    c ∈ Styled.plain parts.flatten ↔ ∃ part ∈ parts, c ∈ part.plain := by
  rw [← List.flatMap_id, Styled.plain_flatMap, List.mem_flatMap]
  rfl

/-- A repeated text has no other characters than the text. -/
lemma Count.not_mem_repeated {text : String} {count : Nat} {shown : List Char}
    (h : Count.repeated text count = .ok shown) {c : Char} (hc : c ∉ text.toList) : c ∉ shown := by
  rw [(Count.repeated_eq_ok_iff.mp h).1, List.mem_flatten]
  rintro ⟨part, hpart, hmem⟩
  exact hc (List.eq_of_mem_replicate hpart ▸ hmem)

/-- Colouring what can be shown and taking the colours away again changes nothing. -/
lemma Text.Styled.map_decoloured {ε : Type} {shown : Except ε Styled}
    (h : ∀ pieces, shown = .ok pieces → escapeChar ∉ pieces.plain) :
    (shown.map (Styled.render true)).map decoloured = shown.map (Styled.render false) := by
  cases shown with
  | error e => rfl
  | ok pieces => exact congrArg Except.ok (Styled.decoloured_render (h pieces rfl))

namespace Gutter

/-! ## Views -/

/-- A row as it is printed, with the styles that are left out without colours. -/
def Row.pieces (width : Nat) (row : Row) : Styled :=
  [.style .dim,
    .text (padLeft width (toString row.number).toList ++ ' ' :: padLeft 3 row.directive.token.toList),
    .style .reset, .text [' '], .style (levelStyle row.directive.level), .text row.bars,
    .style .reset, .text (' ' :: row.text)] ++
    row.notes.flatMap (fun note => [.text [' ', ' '], .style .dim, .style (row.noteStyle note),
      .text note, .style .reset]) ++ [.text ['\n']]

lemma plain_pieces (width : Nat) (row : Row) :
    Styled.plain (row.pieces width) = row.plain width := by
  simp [Row.pieces, Row.plain, Styled.plain, List.flatMap_assoc]

lemma coloured_pieces (width : Nat) (row : Row) :
    Styled.coloured (row.pieces width) = row.coloured width := by
  simp [Row.pieces, Row.coloured, Styled.coloured, List.flatMap_assoc]

/-- The view as a styled text. -/
def styledView (labels : Bool) (source : String) (outline : Outline) : Except Overflow Styled := do
  let shown ← view labels source outline
  return shown.flatMap (Row.pieces (numberWidth (lineCount source.toList)))

/-- A view is printed as its layout, with or without the styles. -/
theorem render_eq_styledView (labels colour : Bool) (source : String) (outline : Outline) :
    render labels colour source outline =
      (styledView labels source outline).map (Styled.render colour) := by
  rw [render, styledView]
  cases view labels source outline with
  | error cause => rfl
  | ok shown =>
    refine congrArg (fun text => Except.ok (String.ofList text)) ?_
    cases colour with
    | false => simp only [Bool.false_eq_true, if_false, Styled.plain_flatMap, plain_pieces]
    | true => simp only [if_true, Styled.coloured_flatMap, coloured_pieces]

variable {outline : Outline}

lemma escape_not_mem_row (h : outline.Lacks escapeChar) {labels : Bool} {number : Nat}
    {text : List Char} (htext : escapeChar ∉ text) {shown : Row}
    (hrow : row labels outline number text = .ok shown) (width : Nat) :
    escapeChar ∉ shown.plain width := by
  obtain ⟨bars, hbars, hrow⟩ := Count.bind_eq_ok_iff.mp hrow
  obtain ⟨remarks, hremarks, hrow⟩ := Count.bind_eq_ok_iff.mp hrow
  obtain rfl := Except.ok.inj hrow
  have hbars : escapeChar ∉ bars := Count.not_mem_repeated hbars (by decide)
  have hnotes : ∀ note ∈ remarks, escapeChar ∉ note := by
    cases labels with
    | false =>
      obtain rfl : [] = remarks := Except.ok.inj hremarks
      simp
    | true => exact not_mem_notes isControl_escapeChar h hremarks
  rw [Row.plain_eq_body, List.mem_append, not_or]
  exact ⟨Row.not_mem_body isControl_escapeChar hbars htext hnotes width, by decide⟩

/-- A view has an escape character only from the source, a name or a message. -/
lemma escape_not_mem_styledView {labels : Bool} {source : String}
    (hsource : escapeChar ∉ source.toList) (h : outline.Lacks escapeChar) {pieces : Styled}
    (hstyled : styledView labels source outline = .ok pieces) : escapeChar ∉ pieces.plain := by
  obtain ⟨rows, hview, hpieces⟩ := Count.bind_eq_ok_iff.mp hstyled
  obtain rfl := Except.ok.inj hpieces
  rw [Styled.plain_flatMap, List.mem_flatMap]
  rintro ⟨shown, hshown, hmem⟩
  rw [plain_pieces] at hmem
  obtain ⟨⟨text, i⟩, hentry, hrow⟩ := Count.exists_of_mem_mapM hview hshown
  have htext : escapeChar ∉ text := by
    intro hescape
    obtain ⟨visual, hvisual, rfl⟩ := List.mem_map.mp (List.fst_mem_of_mem_zipIdx hentry)
    have hvisual := mem_of_mem_visualRows (List.mem_of_mem_take hvisual)
    exact hsource (hvisual _ ((List.rdropWhile_prefix isReturn visual).subset hescape))
  exact escape_not_mem_row h htext hrow _ hmem

end Gutter

namespace Report

/-! ## Listings -/

lemma escape_not_mem_regionItem {number : Nat} {r : Region}
    (hname : ∀ name ∈ r.name, escapeChar ∉ name.toList) {item : Styled}
    (h : regionItem number r = .ok item) : escapeChar ∉ item.plain := by
  obtain ⟨depth, -, hitem⟩ := Count.bind_eq_ok_iff.mp h
  obtain ⟨indent, hindent, hitem⟩ := Count.bind_eq_ok_iff.mp hitem
  obtain rfl := Except.ok.inj hitem
  have hnumber := isControl_escapeChar.not_mem_toString
  have hindent : escapeChar ∉ (String.ofList indent).toList := by
    rw [String.toList_ofList]
    exact Count.not_mem_repeated hindent (by decide)
  have hword : escapeChar ∉ (r.name.getD "<unnamed>").toList := by
    cases hr : r.name with
    | none => decide
    | some name => exact hname name hr
  have hfolded : escapeChar ∉ (if r.fold then ", folded" else "").toList := by
    cases r.fold <;> decide
  simp only [Styled.plain, Styled.ofString, List.flatMap_cons, List.flatMap_nil, List.nil_append,
    String.toList_append, List.mem_append, not_or, and_assoc]
  exact ⟨hnumber number, by decide, hindent, hword, by decide, by decide, hnumber r.startLine,
    by decide, hnumber r.endLine, by decide, hnumber r.level, hfolded, by decide, by decide, by decide⟩

lemma escape_not_mem_faultItem {fault : Fault} (h : escapeChar ∉ fault.message.toList) :
    escapeChar ∉ Styled.plain (faultItem fault) := by
  have hkind : escapeChar ∉ fault.kind.label.toList := by
    cases fault.kind <;> decide
  simp only [faultItem, Styled.plain, Styled.ofString, List.flatMap_cons, List.flatMap_nil,
    List.nil_append, String.toList_append, List.mem_append, not_or, and_assoc]
  exact ⟨by decide, by decide, isControl_escapeChar.not_mem_toString fault.line, by decide, h,
    by decide, hkind, by decide, by decide, by decide⟩

lemma escape_not_mem_faultList {faults : List Fault}
    (h : ∀ fault ∈ faults, escapeChar ∉ fault.message.toList) :
    escapeChar ∉ Styled.plain (faultList faults) := by
  unfold faultList
  split_ifs with hempty
  · exact List.not_mem_nil
  · have hhead : escapeChar ∉ Styled.plain [Styled.ofString s!"\nErrors: {faults.length}\n"] := by
      simp only [Styled.plain, Styled.ofString, List.flatMap_cons, List.flatMap_nil,
        String.toList_append, List.mem_append, not_or, and_assoc]
      exact ⟨by decide, isControl_escapeChar.not_mem_toString faults.length, by decide, by decide⟩
    rw [← List.singleton_append, Styled.plain_append, List.mem_append, not_or, List.flatMap_def,
      Styled.mem_plain_flatten]
    refine ⟨hhead, ?_⟩
    rintro ⟨item, hitem, hmem⟩
    obtain ⟨fault, hfault, rfl⟩ := List.mem_map.mp hitem
    exact escape_not_mem_faultItem (h fault hfault) hmem

/-- A listing has an escape character only from the path, a name or a message. -/
lemma escape_not_mem_listing {file : SourceFile} (hpath : 0x1b ∉ file.path.octets)
    (h : file.outline.Lacks escapeChar) {pieces : Styled} (hlisting : listing file = .ok pieces) :
    escapeChar ∉ pieces.plain := by
  obtain ⟨items, hitems, hpieces⟩ := Count.bind_eq_ok_iff.mp hlisting
  obtain rfl := Except.ok.inj hpieces
  have hnumber := isControl_escapeChar.not_mem_toString
  have hlanguage : escapeChar ∉ file.language.label.toList := by
    cases file.language <;> decide
  simp only [Styled.plain_append, List.mem_append, not_or]
  refine ⟨⟨?_, ?_⟩, escape_not_mem_faultList h.messages⟩
  · simp only [Styled.plain, Styled.ofString, List.flatMap_cons, List.flatMap_nil,
      List.nil_append, String.toList_append, List.mem_append, not_or, and_assoc]
    exact ⟨by decide, by decide, Path.escape_not_mem_display hpath, by decide, hlanguage, by decide,
      hnumber file.lineCount, by decide, by decide, hnumber file.outline.regions.length, by decide,
      by decide⟩
  · rw [Styled.mem_plain_flatten]
    rintro ⟨item, hitem, hmem⟩
    obtain ⟨⟨r, i⟩, hentry, hregion⟩ := Count.exists_of_mem_mapM hitems hitem
    have hname := h.names r (List.fst_mem_of_mem_zipIdx hentry)
    exact escape_not_mem_regionItem hname hregion hmem

/-- Deleting the escape sequences from a coloured view gives the plain view, with and without labels,
and deleting them from a coloured listing gives the plain listing. What fails fails with the same
cause. -/
theorem decoloured_eq_plain :
    (∀ (labels : Bool) (source : String) (outline : Outline), escapeChar ∉ source.toList →
      outline.Lacks escapeChar →
        (Gutter.render labels true source outline).map decoloured =
          Gutter.render labels false source outline) ∧
    ∀ file : SourceFile, 0x1b ∉ file.path.octets → file.outline.Lacks escapeChar →
      (Report.file .ansi file).map decoloured = Report.file .summary file := by
  constructor
  · intro labels source outline hsource hlacks
    rw [Gutter.render_eq_styledView, Gutter.render_eq_styledView]
    exact Styled.map_decoloured fun pieces => Gutter.escape_not_mem_styledView hsource hlacks
  · intro file hpath hlacks
    have hshown := Styled.map_decoloured fun pieces hlisting =>
      escape_not_mem_listing hpath hlacks hlisting
    have hmap : ∀ shown : Except Overflow String,
        (ofOverflow shown).map decoloured = ofOverflow (shown.map decoloured) := by
      intro shown
      cases shown <;> rfl
    rw [Report.file, Report.file, hmap, hshown]

/-- A file with signs in its path that would end an escape sequence. -/
def bracketedFile : SourceFile where
  path := Path.ofString "a[31m.py"
  location := Path.ofString "/p/a[31m.py"
  language := .python
  outline := Gutter.notedOutline
  lineCount := 3
  parsed := true

theorem decoloured_eq_plain_bracketed :
    escapeChar ∉ "x[0m = 1\r\n# é".toList ∧ bracketedFile.outline.Lacks escapeChar ∧
      0x1b ∉ bracketedFile.path.octets ∧
      (Gutter.render true true "x[0m = 1\r\n# é" Gutter.notedOutline).map decoloured =
        Gutter.render true false "x[0m = 1\r\n# é" Gutter.notedOutline ∧
      (Report.file .ansi bracketedFile).map decoloured = Report.file .summary bracketedFile := by
  have hsource : escapeChar ∉ "x[0m = 1\r\n# é".toList := by decide
  have hlacks : bracketedFile.outline.Lacks escapeChar := ⟨by decide, by decide⟩
  have hpath : 0x1b ∉ bracketedFile.path.octets := by decide
  exact ⟨hsource, hlacks, hpath, decoloured_eq_plain.1 true _ _ hsource hlacks,
    decoloured_eq_plain.2 bracketedFile hpath hlacks⟩

end Report

end Foldmark

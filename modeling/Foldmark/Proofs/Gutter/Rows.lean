import Foldmark.Gutter
import Foldmark.Proofs.Text.Breaks

/-!
# Printed rows

The view of a source prints one row a line, with the number and the fold token of the line. Where
the number of lines of every region fits a counter, only the bars of a level that is too high can
stop it, and otherwise the rows are `printed`. The text in a row comes from the rows of a text view,
so it is that of the line exactly if the source is aligned (`texts_eq_iff`).
-/
namespace Foldmark

lemma Count.repeated_bar (level : Nat) :
    Count.repeated "│" level =
      if 3 * level ≤ Count.capacity then .ok (List.replicate level '│') else .error .capacity := by
  have hsize : "│".utf8ByteSize = 3 := by decide
  have hbars : (List.replicate level "│".toList).flatten = List.replicate level '│' :=
    List.flatten_replicate_singleton
  rw [repeated, hsize, hbars]

/-- A list of steps of which some may fail, all for one reason. -/
lemma Count.mapM_eq_ite {α β : Type} {f : α → Except Overflow β} {g : α → β} {p : α → Prop}
    [DecidablePred p] (cause : Overflow) (xs : List α)
    (h : ∀ x ∈ xs, f x = if p x then .ok (g x) else .error cause) :
    xs.mapM f = if ∀ x ∈ xs, p x then .ok (xs.map g) else .error cause := by
  induction xs with
  | nil => rfl
  | cons x xs ih =>
    rw [List.forall_mem_cons] at h
    rw [List.mapM_cons, h.1, ih h.2]
    by_cases hx : p x
    · by_cases hxs : ∀ y ∈ xs, p y
      · rw [if_pos hx, if_pos hxs, if_pos (List.forall_mem_cons.mpr ⟨hx, hxs⟩)]
        rfl
      · rw [if_pos hx, if_neg hxs, if_neg fun hall => hxs (List.forall_mem_cons.mp hall).2]
        rfl
    · rw [if_neg hx, if_neg fun hall => hx (List.forall_mem_cons.mp hall).1]
      rfl

/-- A list of steps that all succeed. -/
lemma Count.mapM_eq_ok {α β : Type} {f : α → Except Overflow β} {g : α → β} (xs : List α)
    (h : ∀ x ∈ xs, f x = .ok (g x)) : xs.mapM f = .ok (xs.map g) := by
  have hall : ∀ x ∈ xs, f x = if True then .ok (g x) else .error .add := fun x hx => by
    rw [if_pos trivial, h x hx]
  rw [mapM_eq_ite .add xs hall, if_pos fun _ _ => trivial]

/-- Every result of a list of steps that succeeds is the result of one of them. -/
lemma Count.exists_of_mem_mapM {α β : Type} {f : α → Except Overflow β} {xs : List α}
    {ys : List β} (h : xs.mapM f = .ok ys) {y : β} (hy : y ∈ ys) : ∃ x ∈ xs, f x = .ok y := by
  induction xs generalizing ys with
  | nil =>
    obtain rfl : [] = ys := Except.ok.inj h
    cases hy
  | cons x xs ih =>
    rw [List.mapM_cons, bind_eq_ok_iff] at h
    obtain ⟨z, hz, hrest⟩ := h
    obtain ⟨zs, hzs, hys⟩ := bind_eq_ok_iff.mp hrest
    obtain rfl : z :: zs = ys := Except.ok.inj hys
    rcases List.mem_cons.mp hy with rfl | hy
    · exact ⟨x, List.mem_cons_self, hz⟩
    · obtain ⟨x', hx', hf⟩ := ih hzs hy
      exact ⟨x', List.mem_cons_of_mem x hx', hf⟩

/-- The label of a region whose number of lines fits. -/
def Region.caption (r : Region) : String :=
  let name := r.name.getD "region"
  let count := r.endLine - r.startLine + 1
  s!"{name} ({count} lines)"

lemma Region.label_eq_ok {r : Region} (h : ∃ count, r.lineCount = .ok count) :
    r.label = .ok r.caption := by
  obtain ⟨count, hcount⟩ := h
  obtain ⟨rfl, -⟩ := Region.lineCount_eq_ok_iff.mp hcount
  simp [label, hcount, caption, bind, Except.bind, pure, Except.pure]

/-- The bars of the lines from one to `total` fit a text; a bar has three octets. -/
def Outline.LevelsFit (outline : Outline) (total : Nat) : Prop :=
  ∀ directive ∈ outline.directives total, 3 * directive.level ≤ Count.capacity

instance (outline : Outline) (total : Nat) : Decidable (outline.LevelsFit total) :=
  inferInstanceAs (Decidable (∀ directive ∈ outline.directives total, _))

namespace Gutter

open Text

/-! ## The texts of the rows -/

lemma texts_eq_iff_of_stray {c : Char} {rest row : List Char} {more : List (List Char)}
    (hs : IsStray c rest) (hr : rows rest = row :: more) :
    texts (c :: rest) = (rows (c :: rest)).map dropReturns ↔
      ∀ d ∈ rest, isReturn d = true := by
  have hrows := rows_cons hs.2.1 hr
  rw [texts, lineCount, hrows, visualRows_cons_stray hs, List.length_cons,
    List.take_succ_cons, List.map_cons, List.map_cons, List.cons.injEq,
    dropReturns_singleton_eq_iff]
  constructor
  · rintro ⟨hrow, hmore⟩
    apply returns_of_lag rest 0
    rw [hr, List.length_cons, List.replicate_one, List.singleton_append, List.take_succ_cons,
      List.map_cons, hrow, ← hmore, List.map_take]
  · intro hall
    have hlines : ∀ line ∈ rows rest, ∀ d ∈ line, isReturn d = true :=
      fun line hline d hd => hall d (mem_of_mem_rows hline d hd)
    rw [hr] at hlines
    refine ⟨(dropReturns_eq_nil_iff row).mpr (hlines row List.mem_cons_self), ?_⟩
    -- both sides are empty rows, and the text view has enough of them
    have hle := length_rows_le rest
    rw [hr, List.length_cons] at hle
    rw [map_dropReturns_eq_replicate fun line hline => hlines line (List.mem_cons_of_mem _ hline),
      map_dropReturns_eq_replicate fun line hline d hd =>
        hall d (mem_of_mem_visualRows (List.mem_of_mem_take hline) d hd),
      List.length_take, min_eq_left (by omega)]

/-- As many rows as there are lines show the lines exactly if the text is aligned. -/
theorem texts_eq_iff (s : List Char) :
    texts s = (rows s).map dropReturns ↔ Aligned s := by
  induction s using rows_induction with
  | nil => simp [texts, lineCount, rows, aligned_nil]
  | last c hc =>
    have hfirst : (visualRows [c]).take 1 = [[c]] := by
      by_cases hs : IsStray c []
      · simp [visualRows_cons_stray hs]
      · simp [visualRows_cons hc hs rfl]
    have hrows : rows [c] = [[c]] := by simp [rows, hc]
    simp [texts, lineCount, hrows, hfirst, aligned_cons c [], aligned_nil]
  | feed rest ih =>
    have hstray : ¬ IsStray '\n' rest := fun hs => hs.2.1 rfl
    rw [aligned_cons, ← ih]
    simp [texts, lineCount, rows_cons_feed, visualRows_cons_feed, hstray]
  | stray c rest row more hs hr ih =>
    rw [texts_eq_iff_of_stray hs hr, aligned_cons]
    exact ⟨fun hall => ⟨fun _ => hall, aligned_of_returns hall⟩, fun h => h.1 hs⟩
  | other c rest row more vrow vmore hc hs hr hv ih =>
    rw [aligned_cons, ← ih]
    have hhead : dropReturns (c :: vrow) = dropReturns (c :: row) ↔
        dropReturns vrow = dropReturns row := by
      by_cases hreturn : isReturn c = true
      · obtain ⟨rest', rfl⟩ := head?_of_not_isStray hc hs hreturn
        rw [rows_cons_feed] at hr
        rw [visualRows_cons_feed] at hv
        rw [← (List.cons.inj hr).1, ← (List.cons.inj hv).1]
        simp
      · simp [dropReturns_cons, hreturn]
    simp [texts, lineCount, rows_cons hc hr, visualRows_cons hc hs hv, hr, hv, hs, hhead]

/-! ## The rows of a view -/

/-- The remarks on a line where all labels exist. -/
def remarks (outline : Outline) (number : Nat) : List (List Char) :=
  let starting := outline.regions.filter fun region => region.startLine == number
  let faults := outline.faults.filter fun fault => fault.line == number
  starting.map (fun region => "▸ ".toList ++ region.caption.toList ++
    (if region.fold then " [folded]" else "").toList) ++ faults.map faultNote

/-- The row of a line where its bars and all labels exist. -/
def printedRow (labels : Bool) (outline : Outline) (number : Nat) (text : List Char) : Row where
  number
  directive := outline.directive number
  bars := List.replicate (outline.directive number).level '│'
  text
  notes := if labels then remarks outline number else []

/-- The rows of the view of a source. -/
def printed (labels : Bool) (source : String) (outline : Outline) : List Row :=
  (texts source.toList).zipIdx.map fun (text, i) => printedRow labels outline (i + 1) text

variable {outline : Outline}

/-- Where no region starts there is none to name, so the look at the directive spares only work. -/
lemma notes_eq (outline : Outline) (number : Nat) :
    notes outline number = (do
      let labels ← (outline.regions.filter fun r => r.startLine == number).mapM regionNote
      return labels ++ (outline.faults.filter fun fault => fault.line == number).map faultNote) := by
  have hstarting : (if (outline.directive number).isStart = true then
      outline.regions.filter fun r => r.startLine == number else []) =
        outline.regions.filter fun r => r.startLine == number := by
    cases hfound : outline.regions.filter fun r => r.startLine == number with
    | nil => exact ite_self _
    | cons r rs =>
      have hdirective : (outline.directive number).isStart = true := by
        simp only [Outline.directive, hfound, List.map_cons, List.max?_cons']
        rfl
      rw [if_pos hdirective]
  simp only [notes, hstarting]

lemma notes_eq_ok (h : ∀ r ∈ outline.regions, ∃ count, r.lineCount = .ok count) (number : Nat) :
    notes outline number = .ok (remarks outline number) := by
  have hlabels := Count.mapM_eq_ok (f := regionNote)
    (outline.regions.filter fun region => region.startLine == number) fun r hr => by
      rw [regionNote, Region.label_eq_ok (h r (List.mem_filter.mp hr).1)]
      rfl
  simp only [notes_eq, hlabels]
  rfl

lemma row_eq (h : ∀ r ∈ outline.regions, ∃ count, r.lineCount = .ok count) (labels : Bool)
    (number : Nat) (text : List Char) :
    row labels outline number text =
      if 3 * (outline.directive number).level ≤ Count.capacity then
        .ok (printedRow labels outline number text)
      else .error .capacity := by
  have hremarks : (if labels then notes outline number else .ok []) =
      .ok (if labels then remarks outline number else []) := by
    rw [notes_eq_ok h, apply_ite Except.ok]
  simp only [row, Count.repeated_bar, hremarks]
  by_cases hfits : 3 * (outline.directive number).level ≤ Count.capacity
  · simp only [if_pos hfits]
    rfl
  · simp only [if_neg hfits]
    rfl

lemma length_texts (s : List Char) : (texts s).length = lineCount s := by
  rw [texts, List.length_map, List.length_take]
  exact min_eq_left (length_rows_le s)

lemma levelsFit_iff (source : String) (outline : Outline) :
    (∀ entry ∈ (texts source.toList).zipIdx,
        3 * (outline.directive (entry.2 + 1)).level ≤ Count.capacity) ↔
      outline.LevelsFit (lineCount source.toList) := by
  rw [Outline.LevelsFit, Outline.directives, List.forall_mem_map, ← length_texts,
    List.range_eq_range', ← List.zipIdx_map_snd, List.forall_mem_map]

/-- The view is there unless a level is too high for its bars. -/
theorem view_eq (h : ∀ r ∈ outline.regions, ∃ count, r.lineCount = .ok count) (labels : Bool)
    (source : String) :
    view labels source outline =
      if outline.LevelsFit (lineCount source.toList) then .ok (printed labels source outline)
      else .error .capacity := by
  have hrows := Count.mapM_eq_ite .capacity (texts source.toList).zipIdx fun entry _ =>
    row_eq h labels (entry.2 + 1) entry.1
  exact hrows.trans (if_congr (levelsFit_iff source outline) rfl rfl)

lemma render_eq (h : ∀ r ∈ outline.regions, ∃ count, r.lineCount = .ok count) (labels colour : Bool)
    (source : String) :
    render labels colour source outline =
      let width := numberWidth (lineCount source.toList)
      if outline.LevelsFit (lineCount source.toList) then
        .ok (String.ofList ((printed labels source outline).flatMap
          (if colour then Row.coloured width else Row.plain width)))
      else .error .capacity := by
  rw [render, view_eq h]
  split_ifs <;> rfl

/-- The rows are numbered from one, as many as the source has lines. -/
lemma map_number_printed (labels : Bool) (source : String) (outline : Outline) :
    (printed labels source outline).map Row.number =
      (List.range (lineCount source.toList)).map (· + 1) := by
  apply List.ext_getElem
  · simp [printed, length_texts]
  · intro i hi hi'
    simp [printed, printedRow]

lemma map_text_printed (labels : Bool) (source : String) (outline : Outline) :
    (printed labels source outline).map Row.text = texts source.toList := by
  apply List.ext_getElem
  · simp [printed]
  · intro i hi hi'
    simp [printed, printedRow]

/-- A view prints a row for every line, with the number and the directive of the line, unless a level
is too high for its bars. The rows show the texts of the lines, without carriage returns at their end,
exactly if the source is aligned. -/
theorem render_shows_lines_iff (labels colour : Bool) (source : String) (outline : Outline)
    (h : ∀ r ∈ outline.regions, ∃ count, r.lineCount = .ok count) :
    render labels colour source outline =
        (let width := numberWidth (lines source.toList).length
        if outline.LevelsFit (lines source.toList).length then
          .ok (String.ofList ((printed labels source outline).flatMap
            (if colour then Row.coloured width else Row.plain width)))
        else .error .capacity) ∧
      (printed labels source outline).map Row.number =
        (List.range (lineCount source.toList)).map (· + 1) ∧
      (∀ row ∈ printed labels source outline, row.directive = outline.directive row.number) ∧
      ((printed labels source outline).map Row.text =
          (lines source.toList).map (List.rdropWhile (· == '\r')) ↔
        Aligned source.toList) := by
  refine ⟨?_, map_number_printed labels source outline, ?_, ?_⟩
  · rw [length_lines, render_eq h]
  · intro row hrow
    obtain ⟨entry, -, rfl⟩ := List.mem_map.mp hrow
    rfl
  · rw [map_text_printed, ← map_dropReturns_rows, texts_eq_iff]

/-- A stray break at the end of the last line that is not empty, and a region around all lines. -/
theorem render_shows_lines_form_feed :
    (∀ r ∈ [(⟨1, 3, 1, some "a", true⟩ : Region)], ∃ count, r.lineCount = .ok count) ∧
      (printed true "one\r\ntwo\x0c\r\n\n" { regions := [⟨1, 3, 1, some "a", true⟩] }).map
          Row.text =
        (lines "one\r\ntwo\x0c\r\n\n".toList).map (List.rdropWhile (· == '\r')) := by
  have h : ∀ r ∈ [(⟨1, 3, 1, some "a", true⟩ : Region)], ∃ count, r.lineCount = .ok count := by
    intro r hr
    obtain rfl := List.mem_singleton.mp hr
    exact ⟨3, rfl⟩
  exact ⟨h, (render_shows_lines_iff true false _ { regions := _ } h).2.2.2.mpr (by decide)⟩

/-- A vertical tab ends a row inside the first line, and its rest is shown as the second. -/
theorem render_vertical_tab :
    render true false "one\x0btwo\nthree\n" {} =
        .ok "  1   0  one\x0b\n  2   0  two\n" ∧
      (printed true "one\x0btwo\nthree\n" {}).map Row.text ≠
        (lines "one\x0btwo\nthree\n".toList).map (List.rdropWhile (· == '\r')) := by
  constructor
  · rfl
  · decide

end Gutter

end Foldmark

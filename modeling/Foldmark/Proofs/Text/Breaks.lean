import Foldmark.Text.Lines
import Mathlib.Data.List.DropRight

/-!
# Lines and rows of a text view

A text view also ends a row where no line ends: at a stray break. From the first of them on its rows
lag behind the lines. A text is `Aligned` if only line feeds and carriage returns follow a stray
break. Elsewhere rows that lag show something else than the lines (`returns_of_lag`).
-/
namespace Foldmark.Text

/-! ## The end of a row -/

/-- A line feed or a carriage return. -/
def isReturn (c : Char) : Bool := c == '\n' || c == '\r'

lemma rdropWhile_cons {α : Type} (p : α → Bool) (a : α) (l : List α) :
    (a :: l).rdropWhile p = if l.all p && p a then [] else a :: l.rdropWhile p := by
  by_cases hl : ∀ x ∈ l, p x = true
  · have hdrop : l.reverse.dropWhile p = [] := by simpa using hl
    rw [List.all_eq_true.mpr hl, Bool.true_and]
    by_cases ha : p a = true
    · rw [if_pos ha]
      simpa [ha] using hl
    · simp [List.rdropWhile, List.dropWhile_append, hdrop, ha]
  · have hdrop : l.reverse.dropWhile p ≠ [] := by simpa using hl
    rw [Bool.eq_false_iff.mpr (mt List.all_eq_true.mp hl)]
    simp [List.rdropWhile, List.dropWhile_append, hdrop]

lemma dropReturns_eq_nil_iff (row : List Char) :
    dropReturns row = [] ↔ ∀ c ∈ row, isReturn c = true :=
  List.rdropWhile_eq_nil_iff

lemma dropReturns_cons (c : Char) (row : List Char) :
    dropReturns (c :: row) =
      if row.all isReturn && isReturn c then [] else c :: dropReturns row :=
  rdropWhile_cons isReturn c row

/-! ## Rows, character by character -/

lemma length_lines (s : List Char) : (lines s).length = lineCount s :=
  List.length_map dropFeed

lemma rows_eq_nil_iff (s : List Char) : rows s = [] ↔ s = [] := by
  cases s with
  | nil => simp [rows]
  | cons c rest =>
    simp only [rows]
    split_ifs
    · simp
    · split <;> simp

lemma visualRows_ne_nil (s : List Char) : visualRows s ≠ [] := by
  cases s with
  | nil => simp [visualRows]
  | cons c rest =>
    simp only [visualRows]
    split_ifs
    · simp
    · split <;> simp

lemma rows_cons_feed (rest : List Char) : rows ('\n' :: rest) = ['\n'] :: rows rest := by
  simp [rows]

lemma rows_cons {c : Char} (hc : c ≠ '\n') {rest row : List Char} {more : List (List Char)}
    (h : rows rest = row :: more) : rows (c :: rest) = (c :: row) :: more := by
  simp [rows, hc, h]

/-- A row ends at the character, but a line does not. -/
def IsStray (c : Char) (rest : List Char) : Prop :=
  isVisualBreak c = true ∧ c ≠ '\n' ∧ (c = '\r' → rest.head? ≠ some '\n')

instance (c : Char) (rest : List Char) : Decidable (IsStray c rest) :=
  inferInstanceAs (Decidable (_ ∧ _ ∧ _))

lemma visualRows_cons_feed (rest : List Char) :
    visualRows ('\n' :: rest) = ['\n'] :: visualRows rest := by
  simp [visualRows, isVisualBreak]

lemma visualRows_cons_stray {c : Char} {rest : List Char} (h : IsStray c rest) :
    visualRows (c :: rest) = [c] :: visualRows rest := by
  obtain ⟨hbreak, -, hpair⟩ := h
  have hc : (isVisualBreak c && !(c == '\r' && rest.head? == some '\n')) = true := by
    rw [hbreak]
    by_cases hr : c = '\r' <;> simp_all
  simp only [visualRows, hc, if_true]

lemma visualRows_cons {c : Char} {rest row : List Char} {more : List (List Char)}
    (hc : c ≠ '\n') (hstray : ¬ IsStray c rest) (h : visualRows rest = row :: more) :
    visualRows (c :: rest) = (c :: row) :: more := by
  have hb : (isVisualBreak c && !(c == '\r' && rest.head? == some '\n')) = false := by
    by_cases hbreak : isVisualBreak c = true
    · simp_all [IsStray]
    · simp [hbreak]
  simp only [visualRows, hb, h]
  rfl

/-- A text is built from its end by line feeds, stray breaks and characters that go on with the row
and the line behind them. -/
theorem rows_induction {P : List Char → Prop} (nil : P []) (last : ∀ c, c ≠ '\n' → P [c])
    (feed : ∀ rest, P rest → P ('\n' :: rest))
    (stray : ∀ c rest row more, IsStray c rest → rows rest = row :: more → P rest → P (c :: rest))
    (other : ∀ c rest row more vrow vmore, c ≠ '\n' → ¬ IsStray c rest →
      rows rest = row :: more → visualRows rest = vrow :: vmore → P rest → P (c :: rest)) :
    ∀ s, P s := by
  intro s
  induction s with
  | nil => exact nil
  | cons c rest ih =>
    by_cases hc : c = '\n'
    · exact hc ▸ feed rest ih
    · cases hr : rows rest with
      | nil => exact (rows_eq_nil_iff rest).mp hr ▸ last c hc
      | cons row more =>
        by_cases hs : IsStray c rest
        · exact stray c rest row more hs hr ih
        · obtain ⟨vrow, vmore, hv⟩ := List.exists_cons_of_ne_nil (visualRows_ne_nil rest)
          exact other c rest row more vrow vmore hc hs hr hv ih

/-- Every line ends where a row ends. -/
lemma length_rows_le (s : List Char) : (rows s).length ≤ (visualRows s).length := by
  induction s using rows_induction with
  | nil => simp [rows]
  | last c hc =>
    have hpos := List.length_pos_of_ne_nil (visualRows_ne_nil [c])
    simp only [rows, hc, if_false, List.length_singleton]
    omega
  | feed rest ih => simpa [rows_cons_feed, visualRows_cons_feed] using ih
  | stray c rest row more hs hr ih =>
    rw [rows_cons hs.2.1 hr, visualRows_cons_stray hs]
    rw [hr] at ih
    simp only [List.length_cons] at ih ⊢
    omega
  | other c rest row more vrow vmore hc hs hr hv ih =>
    rw [rows_cons hc hr, visualRows_cons hc hs hv]
    rwa [hr, hv] at ih

/-! ## Where rows and lines agree -/

/-- Only line feeds and carriage returns follow a stray break. -/
def Aligned (s : List Char) : Prop :=
  ∀ c after, c :: after <:+ s → IsStray c after → ∀ d ∈ after, isReturn d = true

lemma aligned_cons (c : Char) (rest : List Char) :
    Aligned (c :: rest) ↔ (IsStray c rest → ∀ d ∈ rest, isReturn d = true) ∧ Aligned rest := by
  simp only [Aligned, List.suffix_cons_iff, List.cons.injEq]
  constructor
  · exact fun h => ⟨h c rest (.inl ⟨rfl, rfl⟩), fun d after hd => h d after (.inr hd)⟩
  · rintro ⟨hc, hrest⟩ d after (⟨rfl, rfl⟩ | hd)
    · exact hc
    · exact hrest d after hd

lemma aligned_nil : Aligned [] :=
  fun _ _ hsuffix => absurd (List.eq_nil_of_suffix_nil hsuffix) (List.cons_ne_nil _ _)

instance decidableAligned : (s : List Char) → Decidable (Aligned s)
  | [] => isTrue aligned_nil
  | c :: rest =>
    have := decidableAligned rest
    decidable_of_iff ((IsStray c rest → rest.all isReturn = true) ∧ Aligned rest)
      (by rw [aligned_cons, List.all_eq_true])

/-- A text of line feeds and carriage returns only is aligned. -/
lemma aligned_of_returns {s : List Char} (h : ∀ c ∈ s, isReturn c = true) : Aligned s :=
  fun _ _ hsuffix _ d hd => h d (hsuffix.subset (List.mem_cons_of_mem _ hd))

lemma mem_of_mem_visualRows {s row : List Char} (hrow : row ∈ visualRows s) :
    ∀ c ∈ row, c ∈ s := by
  induction s generalizing row with
  | nil => simp_all [visualRows]
  | cons c rest ih =>
    obtain ⟨vrow, vmore, hv⟩ := List.exists_cons_of_ne_nil (visualRows_ne_nil rest)
    simp only [visualRows, hv] at ih hrow
    split_ifs at hrow <;> grind

lemma mem_of_mem_rows {s row : List Char} (hrow : row ∈ rows s) : ∀ c ∈ row, c ∈ s := by
  induction s generalizing row with
  | nil => simp_all [rows]
  | cons c rest ih =>
    simp only [rows] at hrow
    cases hr : rows rest <;> simp only [hr] at ih hrow <;> split_ifs at hrow <;> grind

/-- In such a text all rows and lines are empty without their end. -/
lemma map_dropReturns_eq_replicate {rs : List (List Char)}
    (h : ∀ row ∈ rs, ∀ c ∈ row, isReturn c = true) :
    rs.map dropReturns = List.replicate rs.length [] := by
  rw [List.eq_replicate_iff]
  refine ⟨List.length_map .., fun row hrow => ?_⟩
  obtain ⟨row, hmem, rfl⟩ := List.mem_map.mp hrow
  exact (dropReturns_eq_nil_iff row).mpr (h row hmem)

/-- A carriage return that is not stray stands before a line feed. -/
lemma head?_of_not_isStray {c : Char} {rest : List Char} (hc : c ≠ '\n') (hs : ¬ IsStray c rest)
    (hr : isReturn c = true) : ∃ rest', rest = '\n' :: rest' := by
  obtain rfl : c = '\r' := by simpa [isReturn, hc] using hr
  have hhead : rest.head? = some '\n' := by simpa [IsStray, isVisualBreak] using hs
  exact ⟨rest.tail, (List.cons_head?_tail hhead).symm⟩

/-- Rows that lag behind the lines by empty ones agree with them only where all is empty. -/
lemma returns_of_lag (s : List Char) (lag : Nat)
    (h : (List.replicate (lag + 1) [] ++ (visualRows s).map dropReturns).take (rows s).length =
      (rows s).map dropReturns) : ∀ c ∈ s, isReturn c = true := by
  induction s using rows_induction generalizing lag with
  | nil => simp
  | last c hc =>
    simp only [rows, hc, if_false, List.length_singleton, List.replicate_succ, List.cons_append,
      List.take_succ_cons, List.take_zero, List.map_cons, List.map_nil, List.cons.injEq] at h
    exact (dropReturns_eq_nil_iff [c]).mp h.1.symm
  | feed rest ih =>
    have hrest := ih lag (by
      rw [rows_cons_feed, visualRows_cons_feed, List.map_cons, List.map_cons,
        show dropReturns ['\n'] = [] from rfl, List.append_cons, ← List.replicate_succ',
        List.replicate_succ, List.cons_append, List.length_cons, List.take_succ_cons] at h
      exact (List.cons.inj h).2)
    simpa [isReturn] using hrest
  | stray c rest row more hs hr ih =>
    rw [rows_cons hs.2.1 hr, visualRows_cons_stray hs] at h
    have hempty : dropReturns (c :: row) = [] := by
      simpa [List.replicate_succ] using (congrArg List.head? h).symm
    have hall := (dropReturns_eq_nil_iff _).mp hempty
    have hc : dropReturns [c] = [] := (dropReturns_eq_nil_iff _).mpr (by simp_all)
    have hrow : dropReturns row = [] := (dropReturns_eq_nil_iff _).mpr (by simp_all)
    have hrest := ih (lag + 1) (by
      rw [List.map_cons, List.map_cons, hempty, hc, List.append_cons, ← List.replicate_succ'] at h
      rw [hr, List.map_cons, hrow]
      exact h)
    exact List.forall_mem_cons.mpr ⟨hall c List.mem_cons_self, hrest⟩
  | other c rest row more vrow vmore hc hs hr hv ih =>
    rw [rows_cons hc hr, visualRows_cons hc hs hv] at h
    have hempty : dropReturns (c :: row) = [] := by
      simpa [List.replicate_succ] using (congrArg List.head? h).symm
    have hall := (dropReturns_eq_nil_iff _).mp hempty
    have hrow : dropReturns row = [] := (dropReturns_eq_nil_iff _).mpr (by simp_all)
    obtain ⟨rest', rfl⟩ := head?_of_not_isStray hc hs (hall c List.mem_cons_self)
    -- the carriage return belongs to the line feed behind it, so nothing falls behind further
    rw [visualRows_cons_feed] at hv
    obtain ⟨rfl, rfl⟩ := List.cons.inj hv
    have hpair : dropReturns [c, '\n'] = dropReturns ['\n'] := by
      rw [(dropReturns_eq_nil_iff _).mpr (by simp_all [isReturn])]
      rfl
    have hrest := ih lag (by
      rw [List.map_cons, List.map_cons, hempty, hpair] at h
      rw [hr, visualRows_cons_feed, List.map_cons, List.map_cons, hrow]
      exact h)
    exact List.forall_mem_cons.mpr ⟨hall c List.mem_cons_self, hrest⟩

/-- A character in front of a row changes nothing of it that is all line feeds and carriage returns,
and only of such a row. -/
lemma dropReturns_singleton_eq_iff (c : Char) (row : List Char) :
    dropReturns [c] = dropReturns (c :: row) ↔ dropReturns row = [] := by
  rw [dropReturns_cons c row, dropReturns_cons c [], dropReturns_eq_nil_iff]
  have hnil := dropReturns_eq_nil_iff row
  rw [← List.all_eq_true] at hnil ⊢
  by_cases hc : isReturn c = true <;> by_cases hrow : row.all isReturn = true <;>
    simp_all [-List.all_eq_true, show dropReturns [] = [] from rfl]

/-! ## Lines without carriage returns -/

/-- A row of a text has a line feed at its end only. -/
lemma mem_rows_cases {s row : List Char} (h : row ∈ rows s) :
    ∃ body, '\n' ∉ body ∧ (row = body ∨ row = body ++ ['\n']) := by
  induction s generalizing row with
  | nil => simp [rows] at h
  | cons c rest ih =>
    by_cases hc : c = '\n'
    · subst hc
      rw [rows_cons_feed] at h
      rcases List.mem_cons.mp h with rfl | h
      · exact ⟨[], by simp⟩
      · exact ih h
    · cases hr : rows rest with
      | nil =>
        obtain rfl : row = [c] := by simpa [rows, hc, hr] using h
        exact ⟨[c], by simpa using Ne.symm hc, .inl rfl⟩
      | cons first more =>
        rw [rows_cons hc hr] at h
        rcases List.mem_cons.mp h with rfl | h
        · obtain ⟨body, hbody, hfirst⟩ := ih (hr ▸ List.mem_cons_self)
          refine ⟨c :: body, by simp [hbody, Ne.symm hc], ?_⟩
          rcases hfirst with rfl | rfl <;> simp
        · exact ih (hr ▸ List.mem_cons_of_mem _ h)

lemma dropReturns_eq_rdropWhile {body : List Char} (h : '\n' ∉ body) :
    dropReturns body = body.rdropWhile (· == '\r') := by
  induction body with
  | nil => rfl
  | cons c body ih =>
    rw [List.mem_cons, not_or] at h
    have hreturn : ∀ d : Char, d ≠ '\n' → isReturn d = (d == '\r') := by
      intro d hd
      simp [isReturn, hd]
    have hall : body.all isReturn = body.all (· == '\r') := by
      rw [Bool.eq_iff_iff, List.all_eq_true, List.all_eq_true]
      refine forall₂_congr fun d hd => ?_
      rw [hreturn d fun he => h.2 (he ▸ hd)]
    simp only [dropReturns_cons, rdropWhile_cons, hall, hreturn c (Ne.symm h.1), ih h.2]

/-- What is shown of a row is its line without the carriage returns at its end. -/
lemma dropReturns_eq_of_mem_rows {s row : List Char} (h : row ∈ rows s) :
    dropReturns row = (dropFeed row).rdropWhile (· == '\r') := by
  obtain ⟨body, hbody, hrow⟩ := mem_rows_cases h
  have hdrop := dropReturns_eq_rdropWhile hbody
  rcases hrow with rfl | rfl
  · rw [hdrop]
    congr 1
    unfold dropFeed
    split <;> simp_all
  · have hconcat : dropReturns (body ++ ['\n']) = dropReturns body :=
      List.rdropWhile_concat_pos isReturn body '\n' rfl
    rw [hconcat, hdrop]
    -- of several carriage returns the line feed takes one along
    rcases List.eq_nil_or_concat body with rfl | ⟨front, c, rfl⟩
    · rfl
    · by_cases hc : c = '\r'
      · subst hc
        simp [dropFeed]
      · have hfeed : dropFeed ((front ++ [c]) ++ ['\n']) = front ++ [c] := by
          unfold dropFeed
          split <;> simp_all
        rw [List.concat_eq_append, hfeed]

theorem map_dropReturns_rows (s : List Char) :
    (rows s).map dropReturns = (lines s).map (List.rdropWhile (· == '\r')) := by
  rw [lines, List.map_map]
  exact List.map_congr_left fun row hrow => dropReturns_eq_of_mem_rows hrow

end Foldmark.Text

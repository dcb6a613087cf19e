import Foldmark.Marker.Basic
import Mathlib.Data.List.Infix
import Mathlib.Data.List.Nodup
import Mathlib.Tactic.Lemma
import Mathlib.Tactic.Common

/-!
# Balanced markers

A row of markers is balanced if no beginning of it has more ends than starts and the whole has as
many of the one as of the other. This is the usual notion for brackets. It is a condition on counts
alone, and no stack occurs in it. The second half of the module cuts a row of ascending markers at
two of its lines.
-/
namespace Foldmark.Marker

/-- The number of markers of one kind. -/
def countOf (kind : MarkerKind) (markers : List Marker) : Nat :=
  markers.countP fun m => m.kind = kind

@[simp] theorem countOf_nil (kind : MarkerKind) : countOf kind [] = 0 := rfl

@[simp] theorem countOf_append (kind : MarkerKind) (xs ys : List Marker) :
    countOf kind (xs ++ ys) = countOf kind xs + countOf kind ys := List.countP_append

@[simp] theorem countOf_cons (kind : MarkerKind) (m : Marker) (ms : List Marker) :
    countOf kind (m :: ms) = countOf kind ms + if m.kind = kind then 1 else 0 := by
  simp [countOf, List.countP_cons]

structure Balanced (markers : List Marker) : Prop where
  covered : ∀ before, before <+: markers → countOf .finish before ≤ countOf .start before
  even : countOf .start markers = countOf .finish markers

instance (markers : List Marker) : Decidable (Balanced markers) :=
  decidable_of_iff
    ((∀ before ∈ markers.inits, countOf .finish before ≤ countOf .start before) ∧
      countOf .start markers = countOf .finish markers)
    ⟨fun h => ⟨fun before hb => h.1 before ((List.mem_inits before markers).mpr hb), h.2⟩,
      fun h => ⟨fun before hb => h.covered before ((List.mem_inits before markers).mp hb), h.even⟩⟩

theorem balanced_nil : Balanced [] where
  covered := by
    intro before hb
    simp [List.prefix_nil.mp hb]
  even := rfl

theorem Balanced.append {xs ys : List Marker} (hx : Balanced xs) (hy : Balanced ys) :
    Balanced (xs ++ ys) where
  covered := by
    intro before hb
    rcases List.prefix_or_prefix_of_prefix hb (List.prefix_append xs ys) with hb' | ⟨rest, rfl⟩
    · exact hx.covered before hb'
    · have hc := hy.covered rest ((List.prefix_append_right_inj xs).mp hb)
      have he := hx.even
      simp only [countOf_append]
      omega
  even := by
    have hx := hx.even
    have hy := hy.even
    simp only [countOf_append]
    omega

/-- A start and an end around a balanced row. -/
theorem Balanced.enclose {inner : List Marker} (hi : Balanced inner) (start finish : Marker)
    (hs : start.kind = .start) (hf : finish.kind = .finish) :
    Balanced (start :: (inner ++ [finish])) where
  covered := by
    intro before hb
    have he := hi.even
    rcases List.prefix_cons_iff.mp hb with rfl | ⟨rest, rfl, hr⟩
    · exact Nat.le_refl 0
    · rcases List.prefix_concat_iff.mp hr with rfl | hr
      · simp [hs, hf]
        omega
      · have hc := hi.covered rest hr
        simp [hs]
        omega
  even := by
    have he := hi.even
    simp [hs, hf]
    omega

/-- Every marker stands on a later line than the one before it. -/
abbrev Ascending (markers : List Marker) : Prop :=
  markers.Pairwise fun a b => a.line < b.line

/-- The markers that stand strictly between two lines. -/
def between (markers : List Marker) (first last : Nat) : List Marker :=
  markers.filter fun m => first < m.line ∧ m.line < last

lemma between_append (xs ys : List Marker) (first last : Nat) :
    between (xs ++ ys) first last = between xs first last ++ between ys first last :=
  List.filter_append _ _

lemma between_cons_of_outside (m : Marker) (ms : List Marker) (first last : Nat)
    (h : m.line ≤ first ∨ last ≤ m.line) : between (m :: ms) first last = between ms first last := by
  apply List.filter_cons_of_neg
  simp only [decide_eq_true_eq]
  omega

theorem between_split (before inner after : List Marker) (start finish : Marker)
    (h : Ascending (before ++ start :: (inner ++ finish :: after))) :
    between (before ++ start :: (inner ++ finish :: after)) start.line finish.line = inner := by
  obtain ⟨_, htail, hbefore⟩ := List.pairwise_append.mp h
  obtain ⟨hstart, htail⟩ := List.pairwise_cons.mp htail
  obtain ⟨_, hafter, hinner⟩ := List.pairwise_append.mp htail
  obtain ⟨hfinish, _⟩ := List.pairwise_cons.mp hafter
  have hb : between before start.line finish.line = [] := by
    refine List.filter_eq_nil_iff.mpr fun m hm => ?_
    have := hbefore m hm start List.mem_cons_self
    simp
    omega
  have hi : between inner start.line finish.line = inner := by
    refine List.filter_eq_self.mpr fun m hm => ?_
    have hl := hstart m (List.mem_append_left _ hm)
    have hr := hinner m hm finish List.mem_cons_self
    simp [hl, hr]
  have ha : between after start.line finish.line = [] := by
    refine List.filter_eq_nil_iff.mpr fun m hm => ?_
    have := hfinish m hm
    simp
    omega
  rw [between_append, hb, between_cons_of_outside start _ _ _ (.inl le_rfl), between_append, hi,
    between_cons_of_outside finish _ _ _ (.inr le_rfl), ha, List.append_nil, List.nil_append]

/-- Of two markers the one on the earlier line comes first. -/
theorem exists_split (markers : List Marker) (h : Ascending markers) (start finish : Marker)
    (hs : start ∈ markers) (hf : finish ∈ markers) (hl : start.line < finish.line) :
    ∃ before inner after, markers = before ++ start :: (inner ++ finish :: after) := by
  obtain ⟨before, rest, rfl⟩ := List.mem_iff_append.mp hs
  have hr : finish ∈ rest := by
    rcases List.mem_append.mp hf with hb | hr
    · have := (List.pairwise_append.mp h).2.2 finish hb start List.mem_cons_self
      omega
    · rcases List.mem_cons.mp hr with rfl | hr
      · omega
      · exact hr
  obtain ⟨inner, after, rfl⟩ := List.mem_iff_append.mp hr
  exact ⟨before, inner, after, rfl⟩

theorem Ascending.nodup_lines {markers : List Marker} (h : Ascending markers) :
    (markers.map Marker.line).Nodup :=
  List.pairwise_map.mpr (h.imp Nat.ne_of_lt)

lemma Ascending.eq_of_line_eq {ms : List Marker} (h : Ascending ms) {a b : Marker} (ha : a ∈ ms)
    (hb : b ∈ ms) (hl : a.line = b.line) : a = b :=
  List.inj_on_of_nodup_map h.nodup_lines ha hb hl

end Foldmark.Marker

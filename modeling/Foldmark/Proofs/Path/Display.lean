import Foldmark.Proofs.Path.Joining

/-!
# Paths as they are shown

A path is shown with a sign in place of octets that are no text. An octet of plain text is kept where
it stands, and none is made from others. So a shown path has a plain name, or a plain ending, exactly
where the path itself has it.
-/
namespace Foldmark

namespace Text.Utf8

/-! ## Plain octets -/

/-- The octets that are characters by themselves, but for the zero octet. -/
def IsPlain (b : UInt8) : Prop := 0 < b.toNat ∧ b.toNat < 0x80

instance (b : UInt8) : Decidable (IsPlain b) := inferInstanceAs (Decidable (_ ∧ _))

lemma toNat_ofNat_of_valid {n : Nat} (h : n.isValidChar) : (Char.ofNat n).toNat = n := by
  rw [Char.ofNat, dif_pos h]
  rfl

lemma encodeChar_ofNat_toNat {b : UInt8} (h : b.toNat < 0x80) :
    encodeChar (Char.ofNat b.toNat) = [b] := by
  have hvalid : b.toNat.isValidChar := .inl (by omega)
  simp [encodeChar, toNat_ofNat_of_valid hvalid, h]

/-- Only a character that is a plain octet by itself is encoded with one. -/
lemma toNat_of_mem_encodeChar {c : Char} {b : UInt8} (hb : b ∈ encodeChar c) (h : IsPlain b) :
    c.toNat = b.toNat := by
  have hc : c.toNat < 0x110000 := by
    rcases c.valid with hv | hv <;> simp only [Char.toNat, UInt32.toNat] at * <;> omega
  simp only [encodeChar] at hb
  unfold IsPlain at h
  split_ifs at hb
  all_goals
    simp only [List.mem_cons, List.not_mem_nil, or_false] at hb
    rcases hb with rfl | rfl | rfl | rfl <;> simp only [UInt8.toNat_ofNat'] at h ⊢ <;> omega

/-! ## Pieces -/

lemma low_of_lead? {n : Nat} {lead : Lead} (h : lead? n = some lead) :
    0x80 ≤ lead.low ∧ (lead.more = 1 ∧ 2 ≤ lead.bits ∨
      2 ≤ lead.more ∧ 2 ≤ lead.bits * 0x40 + (lead.low - 0x80)) := by
  unfold lead? at h
  split_ifs at h
  all_goals
    obtain rfl := Option.some.inj h
    grind

/-- A plain octet ends a character. -/
lemma continuation_append {low : Nat} (hlow : 0x80 ≤ low) (high more bits : Nat) (a : List UInt8)
    {b : UInt8} (hb : b.toNat < 0x80) (rest : List UInt8) :
    continuation low high more bits (a ++ b :: rest) = continuation low high more bits a := by
  induction more generalizing low high bits a with
  | zero => simp [continuation]
  | succ more ih =>
    cases a with
    | nil =>
      have hout : ¬ low ≤ b.toNat := by omega
      simp [continuation, hout]
    | cons x a => simp [continuation, ih (Nat.le_refl 0x80)]

lemma continuation_count_le (low high more bits : Nat) (a : List UInt8) :
    (continuation low high more bits a).1 ≤ a.length := by
  induction more generalizing low high bits a with
  | zero => simp [continuation]
  | succ more ih =>
    cases a with
    | nil => simp [continuation]
    | cons x a =>
      simp only [continuation]
      split_ifs
      · simpa using ih ..
      · simp

lemma le_of_continuation {low high more bits code : Nat} {a : List UInt8}
    (h : (continuation low high more bits a).2 = some code) :
    more = 0 ∧ bits = code ∨ 0 < more ∧ bits * 0x40 + (low - 0x80) ≤ code ∧
      (1 < more → (bits * 0x40 + (low - 0x80)) * 0x40 ≤ code) := by
  induction more generalizing low high bits a with
  | zero => exact .inl ⟨rfl, by simpa [continuation] using h⟩
  | succ more ih =>
    right
    cases a with
    | nil => simp [continuation] at h
    | cons x a =>
      simp only [continuation] at h
      split_ifs at h with hx
      rcases ih h with ⟨hmore, hcode⟩ | ⟨-, hle, -⟩ <;> omega

lemma first_append (x : UInt8) (a : List UInt8) {b : UInt8} (hb : b.toNat < 0x80)
    (rest : List UInt8) : first x (a ++ b :: rest) = first x a := by
  unfold first
  split_ifs
  · rfl
  · cases hlead : lead? x.toNat with
    | none => rfl
    | some lead => simp only [continuation_append (low_of_lead? hlead).1 _ _ _ _ hb]

lemma first_count_le (x : UInt8) (a : List UInt8) : (first x a).2 ≤ a.length := by
  unfold first
  split_ifs
  · simp
  · cases lead? x.toNat with
    | none => simp
    | some lead => exact continuation_count_le ..

lemma first_of_lt {x : UInt8} (h : x.toNat < 0x80) (a : List UInt8) :
    first x a = (some (Char.ofNat x.toNat), 0) := by
  rw [first, if_pos h]

/-- A character of several octets is no plain octet, and neither is the sign for a faulty piece. -/
lemma not_isPlain_first {x : UInt8} (h : ¬ x.toNat < 0x80) (a : List UInt8) :
    ∀ b ∈ encodeChar ((first x a).1.getD (Char.ofNat 0xfffd)), ¬ IsPlain b := by
  intro b hb hplain
  have hcode := toNat_of_mem_encodeChar hb hplain
  have hsign : (Char.ofNat 0xfffd).toNat = 0xfffd := rfl
  unfold IsPlain at hplain
  rw [first, if_neg h] at hcode
  cases hlead : lead? x.toNat with
  | none =>
    rw [hlead] at hcode
    rw [Option.getD_none, hsign] at hcode
    omega
  | some lead =>
    rw [hlead] at hcode
    simp only at hcode
    cases hcont : (continuation lead.low lead.high lead.more lead.bits a).2 with
    | none =>
      rw [hcont, Option.map_none, Option.getD_none, hsign] at hcode
      omega
    | some code =>
      have := le_of_continuation hcont
      have := low_of_lead? hlead
      rw [hcont, Option.map_some, Option.getD_some] at hcode
      by_cases hvalid : code.isValidChar
      · rw [toNat_ofNat_of_valid hvalid] at hcode
        omega
      · have hzero : (Char.ofNat code).toNat = 0 := by rw [Char.ofNat, dif_neg hvalid]; rfl
        omega

/-! ## Shown octets -/

/-- Octets with the sign in place of faulty pieces. -/
def shown (octets : List UInt8) : List UInt8 := encode (decodeLossy octets)

@[simp] lemma shown_nil : shown [] = [] := by
  simp [shown, decodeLossy, pieces, encode]

lemma shown_cons (x : UInt8) (a : List UInt8) :
    shown (x :: a) =
      encodeChar ((first x a).1.getD (Char.ofNat 0xfffd)) ++ shown (a.drop (first x a).2) := by
  rw [shown, decodeLossy, pieces]
  rfl

lemma shown_cons_of_lt {x : UInt8} (h : x.toNat < 0x80) (a : List UInt8) :
    shown (x :: a) = x :: shown a := by
  rw [shown_cons, first_of_lt h, Option.getD_some, encodeChar_ofNat_toNat h]
  rfl

/-- What stands on both sides of a plain octet is shown by itself. -/
lemma shown_append (a : List UInt8) {b : UInt8} (hb : b.toNat < 0x80) (rest : List UInt8) :
    shown (a ++ b :: rest) = shown a ++ b :: shown rest := by
  cases a with
  | nil => simpa using shown_cons_of_lt hb rest
  | cons x a =>
    have hcount := first_count_le x a
    rw [List.cons_append, shown_cons, first_append _ _ hb, List.drop_append_of_le_length hcount,
      shown_append _ hb, shown_cons, List.append_assoc]
  termination_by a.length
  decreasing_by simp only [List.length_drop, List.length_cons]; omega

/-- A plain octet is shown only where it stands. -/
lemma exists_of_shown_eq {b : UInt8} (hb : IsPlain b) {octets t u : List UInt8}
    (h : shown octets = t ++ b :: u) : ∃ a c, octets = a ++ b :: c ∧ shown a = t ∧ shown c = u := by
  match octets, h with
  | [], h => simp at h
  | x :: rest, h =>
    by_cases hx : x.toNat < 0x80
    · rw [shown_cons_of_lt hx] at h
      cases t with
      | nil =>
        obtain ⟨rfl, rfl⟩ := List.cons.inj h
        exact ⟨[], rest, rfl, shown_nil, rfl⟩
      | cons y t =>
        obtain ⟨rfl, hrest⟩ := List.cons.inj h
        obtain ⟨a, c, rfl, rfl, rfl⟩ := exists_of_shown_eq hb hrest
        exact ⟨x :: a, c, rfl, shown_cons_of_lt hx a, rfl⟩
    · rw [shown_cons] at h
      have hfirst := not_isPlain_first hx rest
      have hcount := first_count_le x rest
      -- The octet is not in the first piece, so it is in the rest.
      obtain ⟨t', rfl, hrest⟩ : ∃ t', t = encodeChar _ ++ t' ∧ shown _ = t' ++ b :: u := by
        rcases List.append_eq_append_iff.mp h with ⟨t', ht, hu⟩ | ⟨e, he, hu⟩
        · exact ⟨t', ht, hu⟩
        · cases e with
          | nil => exact ⟨[], by simpa using he.symm, by simpa using hu.symm⟩
          | cons y e =>
            obtain ⟨rfl, -⟩ := List.cons.inj hu
            exact absurd hb (hfirst _ (by simp [he]))
      obtain ⟨a, c, hsplit, rfl, rfl⟩ := exists_of_shown_eq hb hrest
      have hall : rest = rest.take (first x rest).2 ++ a ++ b :: c := by
        rw [List.append_assoc, ← hsplit, List.take_append_drop]
      have hsame : first x (rest.take (first x rest).2 ++ a) = first x rest := by
        conv_rhs => rw [hall, first_append _ _ hb.2]
      refine ⟨x :: (rest.take (first x rest).2 ++ a), c, congrArg (x :: ·) hall, ?_, rfl⟩
      rw [shown_cons, hsame, List.drop_append_of_le_length (by simp [hcount])]
      simp
  termination_by octets.length
  decreasing_by all_goals simp only [List.length_drop, List.length_cons]; omega

lemma shown_eq_nil_iff {octets : List UInt8} : shown octets = [] ↔ octets = [] := by
  cases octets with
  | nil => simp
  | cons x a =>
    have hne : ∀ c, encodeChar c ≠ [] := by
      intro c
      simp only [encodeChar]
      split_ifs <;> simp
    simp [shown_cons, hne]

lemma shown_eq_iff {x : List UInt8} (hx : ∀ b ∈ x, IsPlain b) {octets : List UInt8} :
    shown octets = x ↔ octets = x := by
  induction x generalizing octets with
  | nil => exact shown_eq_nil_iff
  | cons b x ih =>
    have hb := hx b List.mem_cons_self
    have ih := @ih fun c hc => hx c (List.mem_cons_of_mem _ hc)
    constructor
    · intro h
      obtain ⟨a, c, rfl, ha, hc⟩ := exists_of_shown_eq (t := []) hb h
      rw [shown_eq_nil_iff.mp ha, ih.mp hc, List.nil_append]
    · rintro rfl
      rw [shown_cons_of_lt hb.2, ih.mpr rfl]

/-- A plain ending is shown only where it stands. -/
lemma suffix_shown_iff {x : List UInt8} (hx : ∀ b ∈ x, IsPlain b) {octets : List UInt8} :
    x <:+ shown octets ↔ x <:+ octets := by
  cases x with
  | nil => simp
  | cons b x =>
    have hb := hx b List.mem_cons_self
    have hrest := @shown_eq_iff x fun c hc => hx c (List.mem_cons_of_mem _ hc)
    constructor
    · rintro ⟨t, ht⟩
      obtain ⟨a, c, rfl, -, hc⟩ := exists_of_shown_eq hb ht.symm
      exact ⟨a, by rw [hrest.mp hc]⟩
    · rintro ⟨a, rfl⟩
      exact ⟨shown a, by rw [shown_append _ hb.2, hrest.mpr rfl]⟩

end Text.Utf8

namespace Path

open Text.Utf8

lemma isPlain_slash : IsPlain slash := by decide

/-- A path is shown segment by segment. -/
lemma segments_shown (octets : List UInt8) :
    segments (shown octets) = (segments octets).map shown := by
  by_cases hmem : slash ∈ octets
  · obtain ⟨a, rest, rfl⟩ := List.append_of_mem hmem
    rw [shown_append _ isPlain_slash.2, segments_append_slash, segments_append_slash,
      segments_shown a, segments_shown rest, List.map_append]
  · have hshown : slash ∉ shown octets := by
      intro hslash
      obtain ⟨t, u, htu⟩ := List.append_of_mem hslash
      obtain ⟨a, c, rfl, -, -⟩ := exists_of_shown_eq isPlain_slash htu
      simp at hmem
    rw [segments_of_not_mem hshown, segments_of_not_mem hmem, List.map_singleton]
  termination_by octets.length
  decreasing_by all_goals simp only [*, List.length_append, List.length_cons]; omega

/-- What the filter reads of a path. -/
lemma encode_display (path : Path) : encode path.display.toList = shown path.octets := by
  simp [display, shown]

/-- No other path is shown like a path of plain octets. -/
lemma display_eq_iff {path other : Path} (h : ∀ b ∈ path.octets, IsPlain b) :
    other.display = path.display ↔ other = path := by
  constructor
  · intro heq
    have hshown : shown other.octets = shown path.octets := by
      rw [← encode_display, ← encode_display, heq]
    rw [(shown_eq_iff h).mpr rfl, shown_eq_iff h] at hshown
    exact congrArg Path.mk hshown
  · rintro rfl
    rfl

end Path

end Foldmark

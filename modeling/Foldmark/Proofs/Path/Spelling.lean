import Foldmark.Proofs.Path.Display

/-!
# Octets that spell a text

The octets of a text are those that its characters are encoded as, and no others: the second octet of
a character is bounded so that nothing has two spellings. So a path that is text is the path of that
text.
-/
namespace Foldmark

namespace Text.Utf8

/-- The number that continuation octets add up to behind the bits of a first octet. -/
def codeOf (bits : Nat) (octets : List UInt8) : Nat :=
  octets.foldl (fun code b => code * 0x40 + (b.toNat - 0x80)) bits

lemma codeOf_cons (bits : Nat) (b : UInt8) (rest : List UInt8) :
    codeOf bits (b :: rest) = codeOf (bits * 0x40 + (b.toNat - 0x80)) rest := by
  simp only [codeOf, List.foldl_cons]

lemma codeOf_nil (bits : Nat) : codeOf bits [] = bits := by
  simp only [codeOf, List.foldl_nil]

/-- Octets that fit behind a first one, the first of them between `low` and `high`. -/
def Continues (low high : Nat) : List UInt8 → Prop
  | [] => True
  | b :: rest => (low ≤ b.toNat ∧ b.toNat ≤ high) ∧ Continues 0x80 0xbf rest

lemma continuation_eq_some {low high more bits code : Nat} {octets : List UInt8}
    (h : (continuation low high more bits octets).2 = some code) :
    (continuation low high more bits octets).1 = more ∧
      (octets.take more).length = more ∧ Continues low high (octets.take more) ∧
        codeOf bits (octets.take more) = code := by
  induction more generalizing low high bits octets with
  | zero =>
    have hcode : bits = code := Option.some.inj h
    exact ⟨rfl, rfl, trivial, hcode⟩
  | succ more ih =>
    cases octets with
    | nil => simp [continuation] at h
    | cons b rest =>
      simp only [continuation] at h ⊢
      split_ifs at h ⊢ with hb
      obtain ⟨hcount, hlength, hcontinues, hcode⟩ := ih h
      rw [List.take_succ_cons, codeOf_cons]
      exact ⟨congrArg (· + 1) hcount, congrArg (· + 1) hlength, ⟨hb, hcontinues⟩, hcode⟩

section

variable {b x y z : UInt8}

lemma toUInt8_eq {n : Nat} (h : n = b.toNat) : n.toUInt8 = b := by
  subst h
  simp

variable {low high bits : Nat}

lemma encodeChar_two (hb : b.toNat = 0xc0 + bits) (hbits : 2 ≤ bits ∧ bits < 0x20)
    (h : Continues 0x80 0xbf [x]) : encodeChar (Char.ofNat (codeOf bits [x])) = [b, x] := by
  obtain ⟨hx, -⟩ := h
  simp only [codeOf_cons, codeOf_nil]
  rw [encodeChar, toNat_ofNat_of_valid (by omega), if_neg (by omega), if_pos (by omega),
    toUInt8_eq (b := b) (by omega), toUInt8_eq (b := x) (by omega)]

lemma encodeChar_three (hb : b.toNat = 0xe0 + bits) (hbits : bits < 0x10)
    (hlow : 0x80 ≤ low ∧ (bits = 0 → 0xa0 ≤ low))
    (hhigh : high ≤ 0xbf ∧ (bits = 13 → high ≤ 0x9f)) (h : Continues low high [x, y]) :
    encodeChar (Char.ofNat (codeOf bits [x, y])) = [b, x, y] := by
  obtain ⟨hx, hy, -⟩ := h
  simp only [codeOf_cons, codeOf_nil]
  rw [encodeChar, toNat_ofNat_of_valid (by omega), if_neg (by omega), if_neg (by omega),
    if_pos (by omega), toUInt8_eq (b := b) (by omega), toUInt8_eq (b := x) (by omega),
    toUInt8_eq (b := y) (by omega)]

lemma encodeChar_four (hb : b.toNat = 0xf0 + bits) (hbits : bits ≤ 4)
    (hlow : 0x80 ≤ low ∧ (bits = 0 → 0x90 ≤ low))
    (hhigh : high ≤ 0xbf ∧ (bits = 4 → high ≤ 0x8f)) (h : Continues low high [x, y, z]) :
    encodeChar (Char.ofNat (codeOf bits [x, y, z])) = [b, x, y, z] := by
  obtain ⟨hx, hy, hz, -⟩ := h
  simp only [codeOf_cons, codeOf_nil]
  rw [encodeChar, toNat_ofNat_of_valid (by omega), if_neg (by omega), if_neg (by omega),
    if_neg (by omega), toUInt8_eq (b := b) (by omega), toUInt8_eq (b := x) (by omega),
    toUInt8_eq (b := y) (by omega), toUInt8_eq (b := z) (by omega)]

/-- What a first octet says: how many octets follow, and the bounds of the second that keep a
character from having two spellings. -/
lemma lead?_cases {n : Nat} {lead : Lead} (h : lead? n = some lead) :
    (lead.more = 1 ∧ n = 0xc0 + lead.bits ∧ (2 ≤ lead.bits ∧ lead.bits < 0x20) ∧
      lead.low = 0x80 ∧ lead.high = 0xbf) ∨
    (lead.more = 2 ∧ n = 0xe0 + lead.bits ∧ lead.bits < 0x10 ∧
      (0x80 ≤ lead.low ∧ (lead.bits = 0 → 0xa0 ≤ lead.low)) ∧
      (lead.high ≤ 0xbf ∧ (lead.bits = 13 → lead.high ≤ 0x9f))) ∨
    (lead.more = 3 ∧ n = 0xf0 + lead.bits ∧ lead.bits ≤ 4 ∧
      (0x80 ≤ lead.low ∧ (lead.bits = 0 → 0x90 ≤ lead.low)) ∧
      (lead.high ≤ 0xbf ∧ (lead.bits = 4 → lead.high ≤ 0x8f))) := by
  unfold lead? at h
  split_ifs at h
  all_goals
    obtain rfl := Option.some.inj h
    grind

/-- A character is encoded as the octets that it is read from. -/
lemma encodeChar_of_first {c : Char} {rest : List UInt8} (h : (first b rest).1 = some c) :
    encodeChar c = b :: rest.take (first b rest).2 := by
  by_cases hplain : b.toNat < 0x80
  · rw [first_of_lt hplain] at h ⊢
    rw [← Option.some.inj h, encodeChar_ofNat_toNat hplain]
    rfl
  · rw [first, if_neg hplain] at h ⊢
    cases hlead : lead? b.toNat with
    | none => simp [hlead] at h
    | some lead =>
      simp only [hlead] at h ⊢
      obtain ⟨code, hcode, rfl⟩ := Option.map_eq_some_iff.mp h
      obtain ⟨hcount, hlength, hcontinues, rfl⟩ := continuation_eq_some hcode
      rw [hcount]
      rcases lead?_cases hlead with ⟨hmore, hb, hbits, hlow, hhigh⟩ |
        ⟨hmore, hb, hbits, hlow, hhigh⟩ | ⟨hmore, hb, hbits, hlow, hhigh⟩
      · rw [hmore] at hlength hcontinues ⊢
        obtain ⟨x, hx⟩ := List.length_eq_one_iff.mp hlength
        rw [hx, hlow, hhigh] at hcontinues
        rw [hx, encodeChar_two hb hbits hcontinues]
      · rw [hmore] at hlength hcontinues ⊢
        obtain ⟨x, y, hxy⟩ := List.length_eq_two.mp hlength
        rw [hxy] at hcontinues
        rw [hxy, encodeChar_three hb hbits hlow hhigh hcontinues]
      · rw [hmore] at hlength hcontinues ⊢
        obtain ⟨x, y, z, hxyz⟩ := List.length_eq_three.mp hlength
        rw [hxyz] at hcontinues
        rw [hxyz, encodeChar_four hb hbits hlow hhigh hcontinues]

lemma decode?_nil : decode? [] = some [] := by
  rw [decode?, pieces]
  rfl

lemma decode?_cons (b : UInt8) (rest : List UInt8) :
    decode? (b :: rest) = (first b rest).1.bind fun c =>
      (decode? (rest.drop (first b rest).2)).map (c :: ·) := by
  rw [decode?, pieces, List.mapM_cons]
  cases (first b rest).1 with
  | none => rfl
  | some c =>
    rw [decode?]
    cases (pieces (rest.drop (first b rest).2)).mapM id <;> rfl

/-- Octets that spell a text are what the text is encoded as. -/
theorem encode_of_decode? (octets : List UInt8) {s : List Char} (h : decode? octets = some s) :
    encode s = octets := by
  match octets, h with
  | [], h =>
    rw [decode?_nil] at h
    rw [← Option.some.inj h]
    rfl
  | b :: rest, h =>
    rw [decode?_cons] at h
    obtain ⟨c, hc, hrest⟩ := Option.bind_eq_some_iff.mp h
    obtain ⟨t, ht, rfl⟩ := Option.map_eq_some_iff.mp hrest
    have hencode := encode_of_decode? (rest.drop (first b rest).2) ht
    rw [encode, List.flatMap_cons, ← encode, hencode, encodeChar_of_first hc, List.cons_append,
      List.take_append_drop]
  termination_by octets.length
  decreasing_by simp only [List.length_drop, List.length_cons]; omega

end

end Text.Utf8

/-- A path that is text is the path of that text. -/
theorem Path.ofString_of_text? {path : Path} {s : String} (h : path.text? = some s) :
    Path.ofString s = path := by
  obtain ⟨t, ht, rfl⟩ := Option.map_eq_some_iff.mp h
  rw [Path.ofString, String.toList_ofList, Text.Utf8.encode_of_decode? path.octets ht]

end Foldmark

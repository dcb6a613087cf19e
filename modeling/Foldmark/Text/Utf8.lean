/-!
# UTF-8

Texts as octets. `pieces` cuts any octets into characters and faulty pieces, where a faulty piece
is the longest beginning of a character that does not go on, or one octet that begins none.
-/
namespace Foldmark.Text.Utf8

def encodeChar (c : Char) : List UInt8 :=
  let n := c.toNat
  if n < 0x80 then [n.toUInt8]
  else if n < 0x800 then [(0xc0 + n / 0x40).toUInt8, (0x80 + n % 0x40).toUInt8]
  else if n < 0x10000 then
    [(0xe0 + n / 0x1000).toUInt8, (0x80 + n / 0x40 % 0x40).toUInt8, (0x80 + n % 0x40).toUInt8]
  else
    [(0xf0 + n / 0x40000).toUInt8, (0x80 + n / 0x1000 % 0x40).toUInt8,
      (0x80 + n / 0x40 % 0x40).toUInt8, (0x80 + n % 0x40).toUInt8]

def encode (s : List Char) : List UInt8 :=
  s.flatMap encodeChar

/-- What may follow a first octet: the bounds of the second octet, the number of octets after the
first, and what the first octet adds to the code point. -/
structure Lead where
  low : Nat
  high : Nat
  more : Nat
  bits : Nat

def lead? (n : Nat) : Option Lead :=
  if 0xc2 ≤ n ∧ n ≤ 0xdf then some ⟨0x80, 0xbf, 1, n - 0xc0⟩
  else if n = 0xe0 then some ⟨0xa0, 0xbf, 2, 0⟩
  else if n = 0xed then some ⟨0x80, 0x9f, 2, 13⟩
  else if 0xe1 ≤ n ∧ n ≤ 0xef then some ⟨0x80, 0xbf, 2, n - 0xe0⟩
  else if n = 0xf0 then some ⟨0x90, 0xbf, 3, 0⟩
  else if 0xf1 ≤ n ∧ n ≤ 0xf3 then some ⟨0x80, 0xbf, 3, n - 0xf0⟩
  else if n = 0xf4 then some ⟨0x80, 0x8f, 3, 4⟩
  else none

/-- Reads `more` continuation octets, the first of them between `low` and `high`. Gives the
number of octets that fit and the code point if all do. -/
def continuation (low high : Nat) : Nat → Nat → List UInt8 → Nat × Option Nat
  | 0, bits, _ => (0, some bits)
  | _ + 1, _, [] => (0, none)
  | more + 1, bits, b :: rest =>
    if low ≤ b.toNat ∧ b.toNat ≤ high then
      let (count, code) := continuation 0x80 0xbf more (bits * 0x40 + (b.toNat - 0x80)) rest
      (count + 1, code)
    else (0, none)

/-- The character at a first octet, or none for a faulty piece, and the number of octets that
belong to it after the first. -/
def first (b : UInt8) (rest : List UInt8) : Option Char × Nat :=
  if b.toNat < 0x80 then (some (Char.ofNat b.toNat), 0)
  else
    match lead? b.toNat with
    | none => (none, 0)
    | some lead =>
      let (count, code) := continuation lead.low lead.high lead.more lead.bits rest
      (code.map Char.ofNat, count)

def pieces : List UInt8 → List (Option Char)
  | [] => []
  | b :: rest =>
    let (c, count) := first b rest
    c :: pieces (rest.drop count)
  termination_by octets => octets.length
  decreasing_by simp only [List.length_drop, List.length_cons]; omega

/-- The text that the octets spell, if they spell one. -/
def decode? (octets : List UInt8) : Option (List Char) :=
  (pieces octets).mapM id

/-- The text with U+FFFD for every faulty piece. -/
def decodeLossy (octets : List UInt8) : List Char :=
  (pieces octets).map fun c => c.getD (Char.ofNat 0xfffd)

end Foldmark.Text.Utf8

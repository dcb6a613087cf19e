/-!
# Blank characters

The characters of the Unicode property White_Space, and the trimming of texts by it. Texts are
lists of characters throughout the library; `String` is used where a text is stored.
-/
namespace Foldmark.Text

def isBlank (c : Char) : Bool :=
  let code := c.toNat
  (0x9 ≤ code && code ≤ 0xd) || code == 0x20 || code == 0x85 || code == 0xa0 || code == 0x1680 ||
    (0x2000 ≤ code && code ≤ 0x200a) || code == 0x2028 || code == 0x2029 || code == 0x202f ||
    code == 0x205f || code == 0x3000

def trimStart (s : List Char) : List Char :=
  s.dropWhile isBlank

def trimEnd (s : List Char) : List Char :=
  (s.reverse.dropWhile isBlank).reverse

def trim (s : List Char) : List Char :=
  trimEnd (trimStart s)

/-- Whether a text is empty or begins with a blank: a word that ends right before it is complete. -/
def atBoundary : List Char → Bool
  | [] => true
  | c :: _ => isBlank c

/-- What follows `lead` in a text that begins with it. -/
def stripStart? {α : Type} [DecidableEq α] : List α → List α → Option (List α)
  | [], s => some s
  | _ :: _, [] => none
  | a :: lead, b :: s => if a = b then stripStart? lead s else none

/-- What precedes `tail` in a text that ends with it. -/
def stripEnd? {α : Type} [DecidableEq α] (tail s : List α) : Option (List α) :=
  (stripStart? tail.reverse s.reverse).map List.reverse

theorem stripStart?_eq_some_iff {α : Type} [DecidableEq α] {lead s rest : List α} :
    stripStart? lead s = some rest ↔ s = lead ++ rest := by
  induction lead generalizing s with
  | nil => simp [stripStart?, eq_comm]
  | cons a lead ih =>
    cases s with
    | nil => simp [stripStart?]
    | cons b s =>
      by_cases h : a = b
      · subst h
        simp [stripStart?, ih]
      · simp [stripStart?, h, Ne.symm h]

theorem stripEnd?_eq_some_iff {α : Type} [DecidableEq α] {tail s rest : List α} :
    stripEnd? tail s = some rest ↔ s = rest ++ tail := by
  constructor
  · intro h
    obtain ⟨back, hback, rfl⟩ := Option.map_eq_some_iff.mp h
    have := congrArg List.reverse (stripStart?_eq_some_iff.mp hback)
    simpa using this
  · rintro rfl
    exact Option.map_eq_some_iff.mpr
      ⟨rest.reverse, stripStart?_eq_some_iff.mpr (by simp), by simp⟩

end Foldmark.Text

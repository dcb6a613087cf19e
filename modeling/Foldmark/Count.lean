/-!
# Counters of 64 bits

Lines, levels and totals are natural numbers. Where a sum or a difference is taken it must fit a
counter of 64 bits, and a text that is repeated must fit the memory. `Overflow` says what did not.
-/
namespace Foldmark

inductive Overflow where
  | add
  | subtract
  | capacity
  deriving Repr, DecidableEq

def Overflow.message : Overflow → String
  | .add => "attempt to add with overflow"
  | .subtract => "attempt to subtract with overflow"
  | .capacity => "capacity overflow"

namespace Count

/-- The first number that no longer fits a counter. -/
def limit : Nat := Nat.pow 2 64

def add (a b : Nat) : Except Overflow Nat :=
  if a + b < limit then .ok (a + b) else .error .add

def subtract (a b : Nat) : Except Overflow Nat :=
  if b ≤ a then .ok (a - b) else .error .subtract

/-- The most octets that a text can have. -/
def capacity : Nat := Nat.pow 2 63 - 1

def repeated (text : String) (count : Nat) : Except Overflow (List Char) :=
  if text.utf8ByteSize * count ≤ capacity then .ok (List.replicate count text.toList).flatten
  else .error .capacity

theorem add_eq_ok_iff {a b c : Nat} : add a b = .ok c ↔ c = a + b ∧ a + b < limit := by
  unfold add
  split <;> simp_all [eq_comm]

theorem subtract_eq_ok_iff {a b c : Nat} : subtract a b = .ok c ↔ c = a - b ∧ b ≤ a := by
  unfold subtract
  split <;> simp_all [eq_comm]

theorem repeated_eq_ok_iff {text : String} {count : Nat} {shown : List Char} :
    repeated text count = .ok shown ↔
      shown = (List.replicate count text.toList).flatten ∧
        text.utf8ByteSize * count ≤ capacity := by
  unfold repeated
  split <;> simp_all [eq_comm]

/-- A chain of operations succeeds if each of them does. -/
theorem bind_eq_ok_iff {α β : Type} {x : Except Overflow α} {f : α → Except Overflow β} {b : β} :
    x >>= f = .ok b ↔ ∃ a, x = .ok a ∧ f a = .ok b := by
  cases x <;> simp [bind, Except.bind]

end Count

end Foldmark

/-!
# Dyadic numbers

A finite floating-point number is a sign and a product `mantissa * 2 ^ exponent`. All decimal
texts are computed from this form in exact arithmetic on natural numbers.
-/
namespace Foldmark.Decimal

/-- The number `mantissa * 2 ^ exponent`. -/
structure Dyadic where
  mantissa : Nat
  exponent : Int
  deriving Repr, DecidableEq

/-- What the 64 bits of a floating-point number stand for. -/
inductive Real where
  | finite (negative : Bool) (size : Dyadic)
  | infinite (negative : Bool)
  | notANumber
  deriving Repr, DecidableEq

namespace Real

/-- Reads sign, exponent and fraction from their bits. -/
def ofBits (bits : Nat) : Real :=
  let negative := bits / Nat.pow 2 63 % 2 == 1
  let field : Nat := bits / Nat.pow 2 52 % Nat.pow 2 11
  let fraction : Nat := bits % Nat.pow 2 52
  if field = 2047 then if fraction = 0 then infinite negative else notANumber
  else if field = 0 then finite negative ⟨fraction, -1074⟩
  else finite negative ⟨Nat.pow 2 52 + fraction, Int.ofNat field - 1075⟩

def ofFloat (x : Float) : Real :=
  ofBits x.toBits.toNat

end Real

namespace Dyadic

/-- The number times `scale` as a fraction of natural numbers. -/
def ratio (x : Dyadic) (scale : Nat) : Nat × Nat :=
  match x.exponent with
  | .ofNat e => (x.mantissa * scale * Nat.pow 2 e, 1)
  | .negSucc e => (x.mantissa * scale, Nat.pow 2 (e + 1))

end Dyadic

end Foldmark.Decimal

import Foldmark.Decimal.Dyadic

/-!
# Decimal texts with a fixed number of places

The exact value is rounded, a half to the even neighbour, and the sign is kept even where the
rounded value is zero.
-/
namespace Foldmark.Decimal

/-- The quotient rounded to the nearest number, a half to the even one. -/
def roundDiv (num den : Nat) : Nat :=
  let below := num / den
  let rest := num % den
  if 2 * rest < den then below
  else if den < 2 * rest then below + 1
  else if below % 2 = 0 then below else below + 1

/-- The value with `places` digits after the point. -/
def fixed (places : Nat) (x : Float) : String :=
  match Real.ofFloat x with
  | .notANumber => "NaN"
  | .infinite negative => if negative then "-inf" else "inf"
  | .finite negative size =>
    let (num, den) := size.ratio (Nat.pow 10 places)
    let scaled := roundDiv num den
    let whole := toString (scaled / Nat.pow 10 places)
    let fraction := (toString (scaled % Nat.pow 10 places)).toList
    let padded := List.replicate (places - fraction.length) '0' ++ fraction
    let body := if places = 0 then whole else whole ++ "." ++ String.ofList padded
    if negative then "-" ++ body else body

end Foldmark.Decimal

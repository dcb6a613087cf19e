import Foldmark.Decimal.Dyadic

/-!
# Shortest decimal texts

`shortest` finds the decimal with the fewest digits that reads back as a given floating-point
number, and among those the nearest one. `Layout.write` sets such a decimal as text.
-/
namespace Foldmark.Decimal

/-- The decimal `digits * 10 ^ exponent`. -/
structure Scaled where
  digits : Nat
  exponent : Int
  deriving Repr, DecidableEq

/-- The reals that round to a floating-point number: between `low` and `high` quarters of the unit
`2 ^ exponent`, with the ends if `closed`. -/
structure Basin where
  low : Nat
  center : Nat
  high : Nat
  exponent : Int
  closed : Bool
  deriving Repr, DecidableEq

/-- Below a power of two the neighbours are twice as dense. -/
def Basin.ofDyadic (x : Dyadic) : Basin where
  low := 4 * x.mantissa - (if x.mantissa = Nat.pow 2 52 ∧ x.exponent ≠ -1074 then 1 else 2)
  center := 4 * x.mantissa
  high := 4 * x.mantissa + 2
  exponent := x.exponent - 2
  closed := x.mantissa % 2 == 0

namespace Basin

/-- Factors `(u, v)` such that `d * 10 ^ k` compares to `q` quarters as `d * u` to `q * v`. -/
def factors (basin : Basin) (k : Int) : Nat × Nat :=
  let ten := match k with
    | .ofNat e => (Nat.pow 10 e, 1)
    | .negSucc e => (1, Nat.pow 10 (e + 1))
  match basin.exponent with
  | .ofNat e => (ten.1, ten.2 * Nat.pow 2 e)
  | .negSucc e => (ten.1 * Nat.pow 2 (e + 1), ten.2)

/-- Whether `d * 10 ^ k` rounds to the number. -/
def holds (basin : Basin) (k : Int) (d : Nat) : Bool :=
  let (u, v) := basin.factors k
  if basin.closed then basin.low * v ≤ d * u && d * u ≤ basin.high * v
  else basin.low * v < d * u && d * u < basin.high * v

/-- The multiple of `10 ^ k` that reads back as the number and is nearest to it, if there is one.
Of two at one distance the even one is taken. -/
def nearest? (basin : Basin) (k : Int) : Option Nat :=
  let (u, v) := basin.factors k
  let below := basin.center * v / u
  let rest := basin.center * v % u
  let above := below + 1
  let first :=
    if 2 * rest < u then below else if 2 * rest > u then above
    else if below % 2 = 0 then below else above
  let second := if first = below then above else below
  if basin.holds k first then some first
  else if basin.holds k second then some second
  else none

end Basin

/-- The exponents of ten that a floating-point number can need, from the highest. -/
def exponents : List Int :=
  (List.range 660).map fun i => 310 - Int.ofNat i

def shortest (x : Dyadic) : Scaled :=
  let basin := Basin.ofDyadic x
  (exponents.findSome? fun k => (basin.nearest? k).map fun d => ⟨d, k⟩).getD ⟨0, 0⟩

/-- How a decimal is set: between `10 ^ -5` and `10 ^ 16` positionally, elsewhere with one digit
before the point and an exponent. -/
structure Layout where
  /-- What marks an exponent that is not negative. -/
  plus : String
  /-- The text of what is no finite number. -/
  infinite : Bool → String
  notANumber : String

namespace Layout

def zeros (n : Nat) : String :=
  String.ofList (List.replicate n '0')

def writeScaled (layout : Layout) (x : Scaled) : String :=
  let text := toString x.digits
  let point := Int.ofNat text.length + x.exponent
  if 0 < point ∧ point ≤ 16 then
    if 0 ≤ x.exponent then text ++ zeros x.exponent.toNat ++ ".0"
    else
      let cs := text.toList
      String.ofList (cs.take point.toNat) ++ "." ++ String.ofList (cs.drop point.toNat)
  else if -5 < point ∧ point ≤ 0 then "0." ++ zeros (-point).toNat ++ text
  else
    let cs := text.toList
    let mantissa :=
      if cs.length ≤ 1 then text
      else String.ofList (cs.take 1) ++ "." ++ String.ofList (cs.drop 1)
    let power := point - 1
    let sign := if power < 0 then "-" else layout.plus
    mantissa ++ "e" ++ sign ++ toString power.natAbs

def write (layout : Layout) (x : Float) : String :=
  match Real.ofFloat x with
  | .notANumber => layout.notANumber
  | .infinite negative => layout.infinite negative
  | .finite negative size =>
    let body := if size.mantissa = 0 then "0.0" else layout.writeScaled (shortest size)
    if negative then "-" ++ body else body

end Layout

end Foldmark.Decimal

import Foldmark.Count

/-!
# Numerals

A numeral is a decimal number as it is written: sign, digits before and after the point, and an
exponent. It is read as a counter or as a floating-point number.
-/
namespace Foldmark.Decimal

structure Numeral where
  negative : Bool
  whole : List Nat
  /-- The digits after the point, if there is one. -/
  fraction : Option (List Nat) := none
  /-- Whether the exponent is negative, and its digits, if there is one. -/
  exponent : Option (Bool × List Nat) := none
  deriving Repr, DecidableEq

/-- The number that a row of decimal digits stands for. -/
def ofDigits (digits : List Nat) : Nat :=
  digits.foldl (fun value digit => value * 10 + digit) 0

namespace Numeral

/-- A counter is written with digits only. -/
def counter? (x : Numeral) : Option Nat :=
  if x.negative || x.fraction.isSome || x.exponent.isSome then none
  else
    let value := ofDigits x.whole
    if value < Count.limit then some value else none

/-- The leading digits as far as they fit a counter, and the number of digits left over. -/
def leading : Nat → List Nat → Nat × Nat
  | value, [] => (value, 0)
  | value, digit :: rest =>
    if value * 10 + digit < Count.limit then leading (value * 10 + digit) rest
    else (value, rest.length + 1)

/-- Adds digits after the point as far as they fit a counter, and counts them. -/
def trailing : Nat → Nat → List Nat → Nat × Nat
  | value, taken, [] => (value, taken)
  | value, taken, digit :: rest =>
    if value * 10 + digit < Count.limit then trailing (value * 10 + digit) (taken + 1) rest
    else (value, taken)

/-- Divides by `10 ^ (308 * n + rest)` in steps that stay in the range of floating-point numbers. -/
def divide (rest : Nat) : Nat → Float → Float
  | 0, x => x / Float.ofScientific 1 false rest
  | n + 1, x => if x == 0.0 then x else divide rest n (x / 1e308)

/-- The number `significand * 10 ^ exponent`, rounded once when the significand is taken over and
once for every scaling step; none if it is too large. -/
def scaled? (significand : Nat) (exponent : Int) : Option Float :=
  let x := significand.toUInt64.toFloat
  match exponent with
  | .ofNat e =>
    if 308 < e then if significand = 0 then some x else none
    else
      let y := x * Float.ofScientific 1 false e
      if y.isInf then none else some y
  | .negSucc e =>
    let size := e + 1
    if size ≤ 308 then some (divide size 0 x)
    else
      let steps := (size - 308 + 307) / 308
      some (divide (size - 308 * steps) steps x)

/-- Exponents from here on are not computed: the number is zero or too large. -/
def exponentLimit : Nat := Nat.pow 2 31

def float? (x : Numeral) : Option Float :=
  let (significand, dropped) := leading 0 x.whole
  let (significand, taken) := trailing significand 0 (x.fraction.getD [])
  let start := Int.ofNat dropped - Int.ofNat taken
  let size :=
    match x.exponent with
    | none => scaled? significand start
    | some (negative, digits) =>
      let value := ofDigits digits
      if exponentLimit ≤ value then
        if significand ≠ 0 ∧ ¬negative then none else some 0.0
      else if negative then scaled? significand (start - value)
      else scaled? significand (start + value)
  size.map fun y => if x.negative then -y else y

end Numeral

end Foldmark.Decimal

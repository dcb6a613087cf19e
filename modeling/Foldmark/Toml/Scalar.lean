import Foldmark.Json.Token
import Foldmark.Toml.Value

/-!
# TOML words, numbers and moments

Truth values, integers, floating-point numbers, dates and times are gathered as far as their
characters reach and then judged as a whole.
-/
namespace Foldmark.Toml

def isScalarChar (c : Char) : Bool :=
  c.isAlphanum || c == '_' || c == '+' || c == '-' || c == '.' || c == ':'

/-- Digits without the single underscores that may stand between them. -/
def grouped? (isDigit : Char → Bool) : List Char → Option (List Char)
  | [] => none
  | [c] => if isDigit c then some [c] else none
  | c :: '_' :: rest => if isDigit c then (grouped? isDigit rest).map (c :: ·) else none
  | c :: rest => if isDigit c then (grouped? isDigit rest).map (c :: ·) else none

def numberOf (base : Nat) (digits : List Char) : Nat :=
  digits.foldl (fun value c => value * base + (Json.hexValue? c).getD 0) 0

def signed : List Char → Bool × List Char
  | '-' :: rest => (true, rest)
  | '+' :: rest => (false, rest)
  | rest => (false, rest)

/-- Decimal digits without a leading zero. -/
def whole? (s : List Char) : Option (List Char) :=
  if s.head? = some '0' ∧ s ≠ ['0'] then none else grouped? Char.isDigit s

/-! ## Integers -/

/-- Integers have 64 bits. -/
def inRange? (value : Int) : Option Int :=
  if -Int.pow 2 63 ≤ value ∧ value < Int.pow 2 63 then some value else none

def integer? : List Char → Option Int
  | '0' :: 'x' :: digits =>
    (grouped? (fun c => (Json.hexValue? c).isSome) digits).bind fun digits =>
      inRange? (numberOf 16 digits)
  | '0' :: 'o' :: digits =>
    (grouped? (fun c => '0' ≤ c && c ≤ '7') digits).bind fun digits => inRange? (numberOf 8 digits)
  | '0' :: 'b' :: digits =>
    (grouped? (fun c => c == '0' || c == '1') digits).bind fun digits =>
      inRange? (numberOf 2 digits)
  | s =>
    let (negative, digits) := signed s
    (whole? digits).bind fun digits =>
      let value : Int := numberOf 10 digits
      inRange? (if negative then -value else value)

/-! ## Floating-point numbers -/

/-- Whether `digits * 10 ^ exponent` rounds to more than the largest finite number. -/
def isHuge (digits : Nat) (exponent : Int) : Bool :=
  let limit := Nat.pow 2 1024 - Nat.pow 2 970
  match exponent with
  | .ofNat e => digits != 0 && (309 < e || limit ≤ digits * Nat.pow 10 e)
  | .negSucc e => limit * Nat.pow 10 (min e (Nat.log2 digits) + 1) ≤ digits

/-- The digits of an exponent with its sign; none where there is no exponent. -/
def exponent? : List Char → Option Int
  | [] => some 0
  | mark :: rest =>
    if mark = 'e' ∨ mark = 'E' then
      let (negative, digits) := signed rest
      (grouped? Char.isDigit digits).map fun digits =>
        let value : Int := numberOf 10 digits
        if negative then -value else value
    else none

def isMantissaChar (c : Char) : Bool :=
  c.isDigit || c == '_'

/-- Whether the characters after a sign are a number with a fraction or an exponent, and its value
as digits and an exponent of ten. -/
def decimal? (s : List Char) : Option (Nat × Int) := do
  let whole ← whole? (s.takeWhile isMantissaChar)
  match s.dropWhile isMantissaChar with
  | '.' :: rest =>
    let fraction ← grouped? Char.isDigit (rest.takeWhile isMantissaChar)
    let exponent ← exponent? (rest.dropWhile isMantissaChar)
    return (numberOf 10 (whole ++ fraction), exponent - fraction.length)
  | [] => none
  | rest => return (numberOf 10 whole, ← exponent? rest)

/-- Whether the characters are a floating-point number. A positive number must be finite. -/
def isFloat (s : List Char) : Bool :=
  let (negative, rest) := signed s
  if rest = "inf".toList ∨ rest = "nan".toList then true
  else
    match decimal? rest with
    | none => false
    | some (digits, exponent) => negative || !isHuge digits exponent

/-! ## Dates and times -/

/-- A number of exactly the given count of digits within bounds, and what follows it. -/
def bounded? (count low high : Nat) (s : List Char) : Option (Nat × List Char) :=
  let digits := s.take count
  let value := numberOf 10 digits
  if digits.length = count ∧ digits.all Char.isDigit ∧ low ≤ value ∧ value ≤ high then
    some (value, s.drop count)
  else none

def sign? (c : Char) : List Char → Option (List Char)
  | [] => none
  | d :: rest => if d = c then some rest else none

def isLeapYear (year : Nat) : Bool :=
  year % 4 == 0 && (year % 100 != 0 || year % 400 == 0)

def daysIn (year month : Nat) : Nat :=
  if month = 2 then if isLeapYear year then 29 else 28
  else if month ∈ [4, 6, 9, 11] then 30
  else 31

def date? (s : List Char) : Option (List Char) := do
  let (year, s) ← bounded? 4 0 9999 s
  let (month, s) ← bounded? 2 1 12 (← sign? '-' s)
  let (_, s) ← bounded? 2 1 (daysIn year month) (← sign? '-' s)
  return s

def time? (s : List Char) : Option (List Char) := do
  let (_, s) ← bounded? 2 0 23 s
  let (_, s) ← bounded? 2 0 59 (← sign? ':' s)
  let (_, s) ← bounded? 2 0 60 (← sign? ':' s)
  match s with
  | '.' :: rest =>
    if (rest.takeWhile Char.isDigit).isEmpty then none else some (rest.dropWhile Char.isDigit)
  | rest => some rest

def isOffset : List Char → Bool
  | [] => true
  | [c] => c == 'Z' || c == 'z'
  | c :: rest =>
    if c = '+' ∨ c = '-' then
      let after := do
        let (_, s) ← bounded? 2 0 23 rest
        let (_, s) ← bounded? 2 0 59 (← sign? ':' s)
        return s
      after == some []
    else false

def isMoment (s : List Char) : Bool :=
  match date? s with
  | none => time? s == some []
  | some [] => true
  | some (mark :: rest) =>
    if mark = 'T' ∨ mark = 't' ∨ mark = ' ' then (time? rest).any isOffset else false

/-! ## Scalars -/

/-- The number of characters of the scalar at the front. A date may be followed by a blank and a
time. -/
def scalarLength (s : List Char) : Nat :=
  let first := (s.takeWhile isScalarChar).length
  match s.drop first with
  | ' ' :: a :: b :: ':' :: rest =>
    if date? (s.take first) = some [] ∧ a.isDigit ∧ b.isDigit then
      first + 4 + (rest.takeWhile isScalarChar).length
    else first
  | _ => first

def scalar? (s : List Char) : Option Value :=
  if s = "true".toList then some (.flag true)
  else if s = "false".toList then some (.flag false)
  else if isMoment s then some (.moment (String.ofList s))
  else if isFloat s then some (.float (String.ofList s))
  else (integer? s).map .integer

end Foldmark.Toml

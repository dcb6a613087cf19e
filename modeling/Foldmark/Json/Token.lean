import Foldmark.Json.Value

/-!
# JSON tokens

`tokens?` cuts a text into tokens, one character at a time. Words and numerals are gathered as
far as their characters reach and then judged as a whole.
-/
namespace Foldmark.Json

def isSpace (c : Char) : Bool :=
  c == ' ' || c == '\n' || c == '\r' || c == '\t'

def isNumeralChar (c : Char) : Bool :=
  c.isDigit || c == '-' || c == '+' || c == '.' || c == 'e' || c == 'E'

def digitValue (c : Char) : Nat :=
  c.toNat - 48

def hexValue? (c : Char) : Option Nat :=
  if c.isDigit then some (c.toNat - 48)
  else if 'a' ≤ c ∧ c ≤ 'f' then some (c.toNat - 87)
  else if 'A' ≤ c ∧ c ≤ 'F' then some (c.toNat - 55)
  else none

/-- The exponent part of a numeral: nothing, or a mark, an optional sign and digits. -/
def exponentPart? : List Char → Option (Option (Bool × List Nat))
  | [] => some none
  | mark :: rest =>
    if mark = 'e' ∨ mark = 'E' then
      let (negative, digits) := match rest with
        | '-' :: digits => (true, digits)
        | '+' :: digits => (false, digits)
        | digits => (false, digits)
      if digits.isEmpty || !digits.all Char.isDigit then none
      else some (some (negative, digits.map digitValue))
    else none

/-- A numeral has no leading zeros, and digits stand on both sides of a point. -/
def numeral? (s : List Char) : Option Decimal.Numeral := do
  let (negative, s) := match s with
    | '-' :: rest => (true, rest)
    | rest => (false, rest)
  let whole := s.takeWhile Char.isDigit
  let s := s.dropWhile Char.isDigit
  if whole.isEmpty || (whole.head? == some '0' && 1 < whole.length) then none
  else
    match s with
    | '.' :: rest =>
      let fraction := rest.takeWhile Char.isDigit
      if fraction.isEmpty then none
      else
        let exponent ← exponentPart? (rest.dropWhile Char.isDigit)
        some ⟨negative, whole.map digitValue, some (fraction.map digitValue), exponent⟩
    | rest =>
      let exponent ← exponentPart? rest
      some ⟨negative, whole.map digitValue, none, exponent⟩

/-- A part of a string: a character, or a code unit of sixteen bits given by an escape. -/
inductive StringPart where
  | char (c : Char)
  | code (n : Nat)
  deriving Repr, DecidableEq

def isHighSurrogate (n : Nat) : Bool := 0xd800 ≤ n && n ≤ 0xdbff

def isLowSurrogate (n : Nat) : Bool := 0xdc00 ≤ n && n ≤ 0xdfff

/-- The text of a string. Surrogates count in pairs only. -/
def textOf? : List StringPart → Option (List Char)
  | [] => some []
  | .char c :: rest => (textOf? rest).map (c :: ·)
  | .code high :: .code low :: rest =>
    if isHighSurrogate high && isLowSurrogate low then
      (textOf? rest).map
        (Char.ofNat (0x10000 + (high - 0xd800) * 0x400 + (low - 0xdc00)) :: ·)
    else if isHighSurrogate high || isLowSurrogate high then none
    else (textOf? (.code low :: rest)).map (Char.ofNat high :: ·)
  | .code n :: rest =>
    if isHighSurrogate n || isLowSurrogate n then none
    else (textOf? rest).map (Char.ofNat n :: ·)

def simpleEscape? (c : Char) : Option Char :=
  if c = '\x22' ∨ c = '\\' ∨ c = '/' then some c
  else if c = 'b' then some (Char.ofNat 8)
  else if c = 'f' then some (Char.ofNat 12)
  else if c = 'n' then some '\n'
  else if c = 'r' then some '\r'
  else if c = 't' then some '\t'
  else none

/-- What has been gathered of the current token, last part first. -/
inductive Mode where
  | between
  | word (done : List Char)
  | numeral (done : List Char)
  | string (done : List StringPart)
  | escape (done : List StringPart)
  | hex (done : List StringPart) (digits : List Nat)

def word? (s : List Char) : Option Token :=
  if s = "null".toList then some .null
  else if s = "true".toList then some (.flag true)
  else if s = "false".toList then some (.flag false)
  else none

def sign? (c : Char) : Option Token :=
  if c = '[' then some .openList
  else if c = ']' then some .closeList
  else if c = '\x7b' then some .openRecord
  else if c = '\x7d' then some .closeRecord
  else if c = ':' then some .colon
  else if c = ',' then some .comma
  else none

/-- The mode in which a token begins, for the characters that do not make a token on their own. -/
def begin? (c : Char) : Option Mode :=
  if c = '\x22' then some (.string [])
  else if c = '-' ∨ c.isDigit then some (.numeral [c])
  else if c.isAlpha then some (.word [c])
  else none

/-- The token that ends where the text ends or where a character no longer belongs to it. -/
def finish? : Mode → Option (List Token)
  | .between => some []
  | .word done => (word? done.reverse).map ([·])
  | .numeral done => (numeral? done.reverse).map fun n => [.number n]
  | _ => none

/-- One character outside all tokens: the tokens that it completes and the mode after it. -/
def outside? (c : Char) : Option (List Token × Mode) :=
  if isSpace c then some ([], .between)
  else
    match sign? c with
    | some token => some ([token], .between)
    | none => (begin? c).map fun mode => ([], mode)

def step? (mode : Mode) (c : Char) : Option (List Token × Mode) :=
  match mode with
  | .between => outside? c
  | .word done =>
    if c.isAlpha then some ([], .word (c :: done))
    else do
      let ended ← finish? mode
      let (more, next) ← outside? c
      some (ended ++ more, next)
  | .numeral done =>
    if isNumeralChar c then some ([], .numeral (c :: done))
    else do
      let ended ← finish? mode
      let (more, next) ← outside? c
      some (ended ++ more, next)
  | .string done =>
    if c = '\x22' then some ([.text ((textOf? done.reverse).map String.ofList)], .between)
    else if c = '\\' then some ([], .escape done)
    else if c.toNat < 32 then none
    else some ([], .string (.char c :: done))
  | .escape done =>
    if c = 'u' then some ([], .hex done [])
    else (simpleEscape? c).map fun d => ([], .string (.char d :: done))
  | .hex done digits => do
    let digit ← hexValue? c
    let digits := digits ++ [digit]
    if digits.length < 4 then some ([], .hex done digits)
    else some ([], .string (.code (digits.foldl (fun n d => n * 16 + d) 0) :: done))

def tokensFrom? : Mode → List Char → Option (List Token)
  | mode, [] => finish? mode
  | mode, c :: rest => do
    let (found, next) ← step? mode c
    let more ← tokensFrom? next rest
    some (found ++ more)

def tokens? (s : List Char) : Option (List Token) :=
  tokensFrom? .between s

end Foldmark.Json

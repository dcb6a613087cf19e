/-!
# YAML scalars

How a text is written as a YAML scalar: plain where that is safe, as a literal block where it has
line feeds, and otherwise in single or double quotes.
-/
namespace Foldmark.Yaml

/-! ## Texts that would be read as something else -/

def isNullWord (s : List Char) : Bool :=
  ["null", "Null", "NULL", "~"].any fun word => word.toList == s

def isBoolWord (s : List Char) : Bool :=
  ["true", "True", "TRUE", "false", "False", "FALSE"].any fun word => word.toList == s

/-- The value of a digit in a radix up to sixteen. -/
def digit? (radix : Nat) (c : Char) : Option Nat :=
  let value :=
    if c.isDigit then some (c.toNat - 48)
    else if 'a' ≤ c ∧ c ≤ 'f' then some (c.toNat - 87)
    else if 'A' ≤ c ∧ c ≤ 'F' then some (c.toNat - 55)
    else none
  value.filter (· < radix)

def ofRadix? (radix : Nat) (s : List Char) : Option Nat :=
  if s.isEmpty then none
  else s.foldlM (fun value c => (digit? radix c).map (value * radix + ·)) 0

/-- Integers in a radix of their own have 128 bits, with a sign one bit less. -/
def isRadixInteger (s : List Char) : Bool :=
  let (negative, body) := match s with
    | '-' :: rest => (true, rest)
    | '+' :: rest => (false, rest)
    | rest => (false, rest)
  let limit := if negative then Nat.pow 2 127 else Nat.pow 2 128 - 1
  let value := match body with
    | '0' :: 'x' :: rest => ofRadix? 16 rest
    | '0' :: 'o' :: rest => ofRadix? 8 rest
    | '0' :: 'b' :: rest => ofRadix? 2 rest
    | _ => none
  value.any (· ≤ limit)

/-- A zero followed by digits only, after an optional sign. -/
def isZeroPadded (s : List Char) : Bool :=
  let body := match s with
    | '-' :: rest => rest
    | '+' :: rest => rest
    | rest => rest
  match body with
  | '0' :: digit :: rest => (digit :: rest).all Char.isDigit
  | _ => false

/-- The exponent that follows the digits of a decimal number, if what follows is one. -/
def exponent? : List Char → Option Int
  | [] => some 0
  | mark :: rest =>
    if mark = 'e' ∨ mark = 'E' then
      let (negative, digits) := match rest with
        | '-' :: digits => (true, digits)
        | '+' :: digits => (false, digits)
        | digits => (false, digits)
      (ofRadix? 10 digits).map fun value => if negative then -(value : Int) else value
    else none

/-- Whether `digits * 10 ^ exponent` is below the numbers that round to infinity. -/
def isFinite (digits : Nat) (exponent : Int) : Bool :=
  let size := Int.ofNat (toString digits).length + exponent
  if digits = 0 ∨ size < 300 then true
  else if 320 < size then false
  else
    let bound := Nat.pow 2 1024 - Nat.pow 2 970
    match exponent with
    | .ofNat e => digits * Nat.pow 10 e < bound
    | .negSucc e => digits < bound * Nat.pow 10 (e + 1)

/-- A decimal number in the range of floating-point numbers: digits with an optional point among
or around them, and an optional exponent. -/
def isFiniteDecimal (s : List Char) : Bool :=
  let whole := s.takeWhile Char.isDigit
  let rest := s.dropWhile Char.isDigit
  let (fraction, rest) := match rest with
    | '.' :: more => (more.takeWhile Char.isDigit, more.dropWhile Char.isDigit)
    | more => ([], more)
  if whole.isEmpty && fraction.isEmpty then false
  else
    match exponent? rest with
    | some exponent =>
      isFinite ((ofRadix? 10 (whole ++ fraction)).getD 0) (exponent - fraction.length)
    | none => false

def isInfinityWord (s : List Char) : Bool :=
  [".inf", ".Inf", ".INF"].any fun word => word.toList == s

def isNanWord (s : List Char) : Bool :=
  [".nan", ".NaN", ".NAN"].any fun word => word.toList == s

/-- A number with a point or an exponent, also one beyond 128 bits. -/
def isFloat (s : List Char) : Bool :=
  isNanWord s ||
    match s with
    | '+' :: rest => isInfinityWord rest || isFiniteDecimal rest
    | '-' :: rest => isInfinityWord rest || isFiniteDecimal rest
    | rest => isInfinityWord rest || isFiniteDecimal rest

/-- Whether a plain scalar would be read as something else than a text. -/
def isAmbiguous (s : List Char) : Bool :=
  s.isEmpty || isNullWord s || isBoolWord s || isRadixInteger s || isZeroPadded s || isFloat s

/-! ## What the characters of a text allow -/

def isBreak (c : Char) : Bool :=
  c == '\n' || c == '\r' || c.toNat == 0x85 || c.toNat == 0x2028 || c.toNat == 0x2029

def isPrintable (c : Char) : Bool :=
  let n := c.toNat
  n == 0xa || (0x20 ≤ n && n ≤ 0x7e) || (0xa0 ≤ n && n ≤ 0xd7ff) ||
    (0xe000 ≤ n && n ≤ 0xfffd && n != 0xfeff) || 0x10000 ≤ n

/-- Whether a text ends here or goes on with a blank or break. -/
def endsWord : List Char → Bool
  | [] => true
  | c :: _ => c == ' ' || c == '\t' || c.toNat == 0 || isBreak c

/-- Characters that never begin a plain scalar. -/
def isIndicator (c : Char) : Bool :=
  "#,[]\x7b\x7d&*!|>'\"%@\x60".toList.contains c

/-- Whether the first character asks for quotes. -/
def startsSpecial : List Char → Bool
  | [] => false
  | c :: rest =>
    isIndicator c || ((c == '?' || c == ':' || c == '-') && endsWord rest) ||
      ['-', '-', '-'].isPrefixOf (c :: rest) || ['.', '.', '.'].isPrefixOf (c :: rest)

/-- Whether a later character asks for quotes, given the character before it. -/
def goesOnSpecial : Char → List Char → Bool
  | _, [] => false
  | before, c :: rest =>
    (c == ':' && endsWord rest) || (c == '#' && endsWord [before]) || goesOnSpecial c rest

/-- Whether a character of the first class stands directly before one of the second. -/
def hasPair (first second : Char → Bool) : List Char → Bool
  | a :: b :: rest => (first a && second b) || hasPair first second (b :: rest)
  | _ => false

def isBlankEdge (c : Char) : Bool := c == ' ' || isBreak c

def allowsPlain (s : List Char) : Bool :=
  match s with
  | [] => true
  | c :: rest =>
    !startsSpecial s && !goesOnSpecial c rest && !isBlankEdge c &&
      !(s.getLast?.any isBlankEdge) && !s.any isBreak && s.all isPrintable

def hasSpaceBeforeBreak (s : List Char) : Bool :=
  hasPair (· == ' ') isBreak s

def allowsSingleQuotes (s : List Char) : Bool :=
  s.all isPrintable && !hasSpaceBeforeBreak s && !hasPair isBreak (· == ' ') s

def allowsLiteral (s : List Char) : Bool :=
  !s.isEmpty && s.all isPrintable && !hasSpaceBeforeBreak s && s.getLast? != some ' '

/-! ## Writing -/

def blanks (n : Nat) : List Char := List.replicate n ' '

/-- Inside single quotes a quote is doubled. A break is followed by the indent of the next
character or of the closing quote. -/
def singleQuotedBody (indent : Nat) : Bool → List Char → List Char
  | broken, [] => if broken then blanks indent else []
  | broken, c :: rest =>
    if isBreak c then c :: singleQuotedBody indent true rest
    else
      (if c ≠ ' ' ∧ broken then blanks indent else []) ++
        (if c = '\x27' then [c, c] else [c]) ++
        singleQuotedBody indent (broken && c == ' ') rest

def singleQuoted (indent : Nat) (s : List Char) : List Char :=
  '\x27' :: singleQuotedBody indent false s ++ ['\x27']

def hexDigits (width n : Nat) : List Char :=
  let digits := (Nat.toDigits 16 n).map Char.toUpper
  List.replicate (width - digits.length) '0' ++ digits

/-- The escape of a character inside double quotes. -/
def escape (c : Char) : List Char :=
  let n := c.toNat
  let short : List (Nat × Char) :=
    [(0, '0'), (7, 'a'), (8, 'b'), (9, 't'), (0xa, 'n'), (0xb, 'v'), (0xc, 'f'), (0xd, 'r'),
      (0x1b, 'e'), (0x22, '\x22'), (0x5c, '\\'), (0x85, 'N'), (0xa0, '_'), (0x2028, 'L'),
      (0x2029, 'P')]
  match short.lookup n with
  | some letter => ['\\', letter]
  | none =>
    if n ≤ 0xff then '\\' :: 'x' :: hexDigits 2 n
    else if n ≤ 0xffff then '\\' :: 'u' :: hexDigits 4 n
    else '\\' :: 'U' :: hexDigits 8 n

def doubleQuoted (s : List Char) : List Char :=
  let body := s.flatMap fun c =>
    if !isPrintable c || isBreak c || c == '\x22' || c == '\\' then escape c else [c]
  '\x22' :: body ++ ['\x22']

/-- The mark of what happens to the breaks at the end of a literal block. -/
def chomping (s : List Char) : List Char :=
  match s.reverse with
  | last :: before =>
    if !isBreak last then ['-']
    else if before.isEmpty || before.head?.any isBreak then ['+']
    else []
  | [] => ['-']

def literalBody (indent : Nat) : Bool → List Char → List Char
  | _, [] => []
  | fresh, c :: rest =>
    if isBreak c then c :: literalBody indent true rest
    else (if fresh then blanks indent else []) ++ c :: literalBody indent false rest

def literal (indent : Nat) (s : List Char) : List Char :=
  let hint := if s.head?.any isBlankEdge then ['2'] else []
  '|' :: hint ++ chomping s ++ '\n' :: literalBody indent true s

/-- The lines of a text as a scalar whose further lines have the given indent, up to and with the
end of its last line. -/
def scalarLine (indent : Nat) (value : String) : List Char :=
  let s := value.toList
  if s.contains '\n' then
    if allowsLiteral s then
      let block := literal indent s
      if s.getLast?.any isBreak then block else block ++ ['\n']
    else doubleQuoted s ++ ['\n']
  else if !isAmbiguous s && allowsPlain s then s ++ ['\n']
  else if allowsSingleQuotes s then singleQuoted indent s ++ ['\n']
  else doubleQuoted s ++ ['\n']

end Foldmark.Yaml

import Foldmark.Json.Token

/-!
# TOML strings

Strings stand between single or double quotes, on one line or, between three of them, on several.
Each kind says for every character what it adds to the text.
-/
namespace Foldmark.Toml

/-- What a character and those that belong to it add to a string. -/
structure Part where
  text : List Char
  /-- The number of further characters that belong to it. -/
  more : Nat := 0
  /-- Whether the string ends here. -/
  closes : Bool := false

/-- The text of a string and what follows it. -/
def gather (part? : Char → List Char → Option Part) :
    List Char → Option (List Char × List Char)
  | [] => none
  | c :: rest =>
    match part? c rest with
    | none => none
    | some part =>
      if part.closes then some (part.text, rest.drop part.more)
      else
        (gather part? (rest.drop part.more)).map fun (text, after) => (part.text ++ text, after)
  termination_by s => s.length
  decreasing_by simp only [List.length_drop, List.length_cons]; omega

/-- Tabs and all characters that are no control characters. -/
def isPlain (c : Char) : Bool :=
  c == '\t' || (0x20 ≤ c.toNat && c.toNat != 0x7f)

def plainPart? (c : Char) : Option Part :=
  if isPlain c then some { text := [c] } else none

/-- A character given by hexadecimal digits. -/
def codePart? (count : Nat) (rest : List Char) : Option Part := do
  let digits ← (rest.take count).mapM Json.hexValue?
  let code := digits.foldl (fun value digit => value * 16 + digit) 0
  if digits.length = count ∧ code.isValidChar then
    some { text := [Char.ofNat code], more := count + 1 }
  else none

def simpleEscape? (c : Char) : Option Char :=
  if c = '/' then none else Json.simpleEscape? c

/-- An escape after its backslash. -/
def escapePart? : List Char → Option Part
  | 'u' :: rest => codePart? 4 rest
  | 'U' :: rest => codePart? 8 rest
  | c :: _ => (simpleEscape? c).map fun meant => { text := [meant], more := 1 }
  | [] => none

def literalPart? (c : Char) (_ : List Char) : Option Part :=
  if c = '\x27' then some { text := [], closes := true } else plainPart? c

def basicPart? (c : Char) (rest : List Char) : Option Part :=
  if c = '\x22' then some { text := [], closes := true }
  else if c = '\\' then escapePart? rest
  else plainPart? c

/-! ## Strings on several lines -/

/-- A quote: three of them close the string, and up to two right before those belong to it. -/
def quotePart (quote : Char) (rest : List Char) : Part :=
  let count := min 5 (1 + (rest.takeWhile (· == quote)).length)
  if count < 3 then { text := [quote] }
  else { text := List.replicate (count - 3) quote, more := count - 1, closes := true }

/-- A line end is one character of the text. -/
def breakPart? (c : Char) (rest : List Char) : Option Part :=
  if c = '\n' then some { text := ['\n'] }
  else if c = '\r' ∧ rest.head? = some '\n' then some { text := ['\n'], more := 1 }
  else none

/-- The number of blanks and line ends at the front. -/
def blankLength : List Char → Nat
  | '\r' :: '\n' :: rest => blankLength rest + 2
  | c :: rest => if c = ' ' ∨ c = '\t' ∨ c = '\n' then blankLength rest + 1 else 0
  | [] => 0

/-- Whether only blanks stand before the next line end. -/
def endsLine (rest : List Char) : Bool :=
  match rest.dropWhile fun c => c == ' ' || c == '\t' with
  | '\n' :: _ => true
  | '\r' :: '\n' :: _ => true
  | _ => false

def longLiteralPart? (c : Char) (rest : List Char) : Option Part :=
  if c = '\x27' then some (quotePart c rest)
  else if isPlain c then plainPart? c
  else breakPart? c rest

/-- A backslash at the end of a line drops the line end and all blanks after it. -/
def longBasicPart? (c : Char) (rest : List Char) : Option Part :=
  if c = '\x22' then some (quotePart c rest)
  else if c = '\\' then
    if endsLine rest then some { text := [], more := blankLength rest } else escapePart? rest
  else if isPlain c then plainPart? c
  else breakPart? c rest

/-- A line end right after the opening quotes does not count. -/
def dropFirstBreak : List Char → List Char
  | '\n' :: rest => rest
  | '\r' :: '\n' :: rest => rest
  | rest => rest

/-- The text of a string of one line whose opening quote is given. -/
def shortText? (quote : Char) (rest : List Char) : Option (List Char × List Char) :=
  if quote = '\x27' then gather literalPart? rest
  else if quote = '\x22' then gather basicPart? rest
  else none

/-- The text of a string of any kind whose first quote is given. -/
def text? (quote : Char) (rest : List Char) : Option (List Char × List Char) :=
  if [quote, quote].isPrefixOf rest then
    let body := dropFirstBreak (rest.drop 2)
    if quote = '\x27' then gather longLiteralPart? body
    else if quote = '\x22' then gather longBasicPart? body
    else none
  else shortText? quote rest

end Foldmark.Toml

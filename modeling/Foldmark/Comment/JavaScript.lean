import Foldmark.Comment.Piece
import Foldmark.Text.Blank

/-!
# Comments of JavaScript and TypeScript

Comments run from two slashes to the end of the line, or between `/*` and `*/`; the HTML signs
`<!--` and `-->` begin comments where no operand stands before them. To tell comments from regular
expressions, templates and markup, the scanner keeps the open brackets and what the last token
was.
-/
namespace Foldmark.Comment.JavaScript

/-- What is open around a place in the source. -/
inductive Place where
  /-- Braces around statements or members. -/
  | block
  /-- Braces that end as an operand. -/
  | object
  /-- Parentheses; after those of a control statement a statement follows. -/
  | paren (control : Bool)
  | bracket
  | template
  /-- Code inside a template. -/
  | hole
  /-- An opening tag with the number of angle brackets that are open in it. -/
  | tag (depth : Nat)
  | closingTag
  /-- The content of an element. -/
  | children
  /-- Braces around code inside a tag or inside the content of an element. -/
  | container
  deriving Repr, DecidableEq

/-- What the last token was, as far as it decides about the next one. -/
inductive Last where
  /-- A statement may start. -/
  | start
  /-- An operand must follow. -/
  | operator
  /-- A closing angle bracket or the comparison that looks like it. -/
  | angle
  | operand
  /-- A property name follows. -/
  | dot
  /-- A word whose parentheses are followed by a statement. -/
  | control
  deriving Repr, DecidableEq

structure State where
  /-- Innermost first. -/
  places : List Place := []
  last : Last := .start
  /-- Whether a line ended after the last token. -/
  fresh : Bool := true
  /-- Whether no token has been read yet. -/
  first : Bool := true
  deriving Repr, DecidableEq

def isTerminator (c : Char) : Bool :=
  c == '\n' || c == '\r' || c.toNat == 0x2028 || c.toNat == 0x2029

def isSpace (c : Char) : Bool :=
  Text.isBlank c || isTerminator c || c.toNat == 0xfeff

def isWordChar (c : Char) : Bool :=
  c.isAlphanum || c == '_' || c == '$' || c == '\\' || (0x80 ≤ c.toNat && !isSpace c)

/-! ## Lengths of tokens after their first character -/

def lineLength (rest : List Char) : Nat :=
  (rest.takeWhile fun c => !isTerminator c).length

/-- The HTML comments go on over a carriage return. -/
def htmlLength (rest : List Char) : Nat :=
  (rest.takeWhile fun c => !(isTerminator c && c != '\r')).length

/-- Up to and with `*/`. -/
def blockLength : List Char → Nat
  | [] => 0
  | c :: rest => if c = '*' ∧ rest.head? = some '/' then 2 else 1 + blockLength rest

/-- Up to and with the closing quote, or to the end of the line. -/
def quotedLength (quote : Char) : List Char → Nat
  | [] => 0
  | '\\' :: '\r' :: '\n' :: rest => 3 + quotedLength quote rest
  | '\\' :: _ :: rest => 2 + quotedLength quote rest
  | c :: rest => if c = quote then 1 else if c = '\n' then 0 else 1 + quotedLength quote rest

/-- Up to and with the closing slash, or to the end of the line; a slash inside brackets does not
close. -/
def regexLength (inClass : Bool) : List Char → Nat
  | [] => 0
  | '\\' :: c :: rest => if isTerminator c then 1 else 2 + regexLength inClass rest
  | c :: rest =>
    if isTerminator c then 0
    else if c = '/' ∧ ¬inClass then 1
    else if c = '[' then 1 + regexLength true rest
    else if c = ']' then 1 + regexLength false rest
    else 1 + regexLength inClass rest

def wordLength (rest : List Char) : Nat :=
  (rest.takeWhile isWordChar).length

def numberLength (rest : List Char) : Nat :=
  (rest.takeWhile fun c => isWordChar c || c == '.').length

/-! ## Words -/

def isAmong (words : List String) (word : List Char) : Bool :=
  words.any fun known => known.toList == word

def operatorWords : List String :=
  ["return", "typeof", "instanceof", "in", "new", "delete", "void", "throw", "case", "yield",
    "await", "default"]

def controlWords : List String :=
  ["if", "while", "for", "with", "switch", "catch"]

def startWords : List String := ["else", "do"]

/-- What a word is as the last token. A word after a dot is a property name. -/
def afterWord (last : Last) (word : List Char) : Last :=
  if last = .dot then .operand
  else if last = .control ∧ isAmong ["await"] word then .control
  else if isAmong operatorWords word then .operator
  else if isAmong controlWords word then .control
  else if isAmong startWords word then .start
  else if isAmong ["of"] word ∧ last = .operand then .operator
  else .operand

/-! ## Markup -/

def isNameChar (c : Char) : Bool :=
  isWordChar c || c == '.' || c == '-' || c == ':'

/-- Whether a closing tag of the name occurs. -/
def closesLater (name : List Char) : List Char → Bool
  | [] => false
  | c :: rest =>
    (c == '<' && rest.head? == some '/' &&
        ((rest.drop 1).dropWhile isSpace).takeWhile isNameChar == name)
      || closesLater name rest

/-- Whether the word `extends` follows as a keyword rather than as an attribute. -/
def extendsType (rest : List Char) : Bool :=
  match Text.stripStart? "extends".toList rest with
  | none => false
  | some after =>
    match after with
    | [] => false
    | c :: _ =>
      if isNameChar c then false
      else
        match after.dropWhile isSpace with
        | [] => false
        | d :: _ => !(d == '=' || d == '>' || d == '/')

/-- Whether an angle bracket where an operand may stand opens an element. With types it may open
type parameters instead: those are told by a comma, an equals sign, a bound, or by an end without
a closing tag. -/
def opensElement (typed : Bool) (rest : List Char) : Bool :=
  let name := rest.takeWhile isNameChar
  let after := (rest.dropWhile isNameChar).dropWhile isSpace
  if name.isEmpty then rest.head? == some '>'
  else if !typed then true
  else if name == "const".toList || extendsType after then false
  else
    match after with
    | ',' :: _ => false
    | '=' :: _ => false
    | '>' :: more => closesLater name more
    | _ => true

/-! ## Steps -/

/-- The state after a token. -/
def token (state : State) (last : Last) : State :=
  { state with last, fresh := false, first := false }

def inside (state : State) (place : Place) (last : Last) : State :=
  token { state with places := place :: state.places } last

def outside (state : State) (last : Last) : State :=
  token { state with places := state.places.drop 1 } last

/-- Inside a template text. -/
def templateStep (state : State) (c : Char) (rest : List Char) : Step State :=
  if c = '\\' then { more := 1, state }
  else if c = '\x60' then { state := outside state .operand }
  else if c = '$' ∧ rest.head? = some '\x7b' then
    { more := 1, state := inside state .hole .operator }
  else { state }

/-- Inside the content of an element. -/
def childrenStep (state : State) (c : Char) (rest : List Char) : Step State :=
  if c = '\x7b' then { state := inside state .container .operator }
  else if c = '<' ∧ rest.head? = some '/' then
    { more := 1, state := inside state .closingTag .operator }
  else if c = '<' then { state := inside state (.tag 0) .operator }
  else { state }

/-- A comment at a slash, if there is one. -/
def slashComment? (state : State) (c : Char) (rest : List Char) : Option (Step State) :=
  if c = '/' ∧ rest.head? = some '/' then
    some { isComment := true, more := lineLength rest, state }
  else if c = '/' ∧ rest.head? = some '*' then
    let more := 1 + blockLength (rest.drop 1)
    let fresh := state.fresh || (rest.take more).any isTerminator
    some { isComment := true, more, state := { state with fresh } }
  else none

/-- Inside an opening tag. -/
def tagStep (depth : Nat) (state : State) (c : Char) (rest : List Char) : Step State :=
  match slashComment? state c rest with
  | some step => step
  | none =>
    let outer := { state with places := state.places.drop 1 }
    if c = '\x22' ∨ c = '\x27' then
      { more := (rest.takeWhile (· != c)).length + 1, state }
    else if c = '\x7b' then { state := inside state .container .operator }
    else if c = '/' ∧ rest.head? = some '>' then
      if depth = 0 then { more := 1, state := token outer .operand }
      else { more := 1, state := inside outer (.tag (depth - 1)) .operator }
    else if c = '>' then
      if depth = 0 then { state := inside outer .children .operand }
      else { state := inside outer (.tag (depth - 1)) .operator }
    else if c = '<' then { state := inside outer (.tag (depth + 1)) .operator }
    else { state }

/-- Inside a closing tag, which also ends the content before it. -/
def closingTagStep (state : State) (c : Char) : Step State :=
  if c = '>' then { state := token { state with places := state.places.drop 2 } .operand }
  else { state }

def openBrace (state : State) : State :=
  match state.last with
  | .operator => inside state .object .operator
  | .dot => inside state .object .operator
  | _ => inside state .block .start

def closeBrace (state : State) : State :=
  match state.places with
  | .block :: _ => outside state .start
  | .object :: _ => outside state .operand
  | .hole :: _ => outside state .operand
  | .container :: _ => outside state .operand
  | _ => token state .start

def closeParen (state : State) : State :=
  match state.places with
  | .paren control :: _ => outside state (if control then .start else .operand)
  | _ => token state .operand

/-- Brackets and operators. -/
def signStep (typed : Bool) (state : State) (c : Char) (rest : List Char) : Step State :=
  let operand := state.last = .operand
  let next := rest.head?
  if c = '(' then { state := inside state (.paren (state.last = .control)) .operator }
  else if c = ')' then { state := closeParen state }
  else if c = '[' then { state := inside state .bracket .operator }
  else if c = ']' then { state := outside state .operand }
  else if c = '\x7b' then { state := openBrace state }
  else if c = '\x7d' then { state := closeBrace state }
  else if c = ';' then { state := token state .start }
  else if c = '.' ∧ ['.', '.'].isPrefixOf rest then { more := 2, state := token state .operator }
  else if c = '.' then { state := token state .dot }
  else if c = '?' ∧ next = some '.' then { more := 1, state := token state .dot }
  else if (c = '+' ∨ c = '-') ∧ next = some c then
    { more := 1, state := token state (if operand ∧ ¬state.fresh then .operand else .operator) }
  else if c = '!' ∧ operand ∧ ¬state.fresh ∧ next ≠ some '=' then
    { state := token state .operand }
  else if c = '=' ∧ next = some '>' then { more := 1, state := token state .start }
  else if c = '/' ∧ ¬operand then
    { more := regexLength false rest, state := token state .operand }
  else if c = '<' ∧ ['<', '='].isPrefixOf rest then { more := 2, state := token state .operator }
  else if c = '<' ∧ next = some '<' then { more := 1, state := token state .operator }
  else if c = '<' ∧ ¬operand ∧ opensElement typed rest then
    { state := inside state (.tag 0) .operator }
  else if c = '>' then { state := token state .angle }
  else { state := token state .operator }

def codeStep (typed : Bool) (state : State) (c : Char) (rest : List Char) : Step State :=
  if isSpace c then
    { state := { state with fresh := state.fresh || isTerminator c } }
  else if state.first ∧ c = '#' ∧ rest.head? = some '!' then
    { more := (rest.takeWhile (· != '\n')).length, state := { state with first := false } }
  else
    match slashComment? state c rest with
    | some step => step
    | none =>
      let operand := state.last = .operand
      if c = '<' ∧ "!--".toList.isPrefixOf rest ∧ ¬operand then
        { isComment := true, more := htmlLength rest, state }
      else if c = '-' ∧ "->".toList.isPrefixOf rest ∧ (¬operand ∨ state.fresh) then
        { isComment := true, more := htmlLength rest, state }
      else if c = '\x22' ∨ c = '\x27' then
        { more := quotedLength c rest, state := token state .operand }
      else if c = '\x60' then { state := inside state .template .operand }
      else if c.isDigit ∨ (c = '.' ∧ rest.head?.any Char.isDigit) then
        { more := numberLength rest, state := token state .operand }
      else if isWordChar c ∨ c = '#' then
        let more := wordLength rest
        { more, state := token state (afterWord state.last (c :: rest.take more)) }
      else signStep typed state c rest

/-- The rule of JavaScript, or of TypeScript where `typed` is set. -/
def rule (typed : Bool) : Rule State := fun state c rest =>
  match state.places with
  | .template :: _ => templateStep state c rest
  | .children :: _ => childrenStep state c rest
  | .tag depth :: _ => tagStep depth state c rest
  | .closingTag :: _ => closingTagStep state c
  | _ => codeStep typed state c rest

end Foldmark.Comment.JavaScript

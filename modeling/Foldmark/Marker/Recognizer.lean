import Foldmark.Marker.Basic
import Foldmark.Neighbours
import Foldmark.Settings
import Foldmark.Text.Lowercase

/-!
# Recognition of markers

A recognizer holds the settings in the form that recognition needs. `Recognizer.parseLine` reads
one comment line: the comment signs and a trailing sentinel are taken off, then a keyword is
looked for, longest first. `Recognizer.collect` reads many lines and keeps at most one marker a
line.
-/
namespace Foldmark

structure Recognizer where
  caseSensitive : Bool
  /-- Opening words, longest first; in lowercase unless case matters. -/
  startKeywords : List (List Char)
  endKeywords : List (List Char)
  sentinel : List Char
  foldAll : Bool
  openers : List (List Char)
  closers : List (List Char)
  deriving Repr, DecidableEq

namespace Recognizer

/-- The usable keywords in the order in which they are tried: longest first, and in the given
order among words of one length. -/
def keywords (caseSensitive : Bool) (words : List String) : List (List Char) :=
  let trimmed := (words.map fun word => Text.trim word.toList).filter fun word => !word.isEmpty
  let cased := if caseSensitive then trimmed else trimmed.map Text.lower
  cased.mergeSort fun a b => b.length ≤ a.length

def ofSettings (settings : Settings) : Recognizer where
  caseSensitive := settings.caseSensitive
  startKeywords := keywords settings.caseSensitive settings.startKeywords
  endKeywords := keywords settings.caseSensitive settings.endKeywords
  sentinel := Text.trim settings.foldSentinel.toList
  foldAll := settings.foldAllByDefault
  openers := (settings.commentPrefixes.map String.toList).filter fun sign => !sign.isEmpty
  closers := (settings.blockCommentClosers.map String.toList).filter fun sign => !sign.isEmpty

/-- The text of a trimmed comment line between its comment signs. -/
def content (r : Recognizer) (text : List Char) : List Char :=
  let afterOpener := (r.openers.findSome? fun sign => Text.stripStart? sign text).getD text
  let body := (r.closers.findSome? fun sign => Text.stripEnd? sign afterOpener).getD afterOpener
  Text.trim body

/-- What precedes a sentinel at the end of the content. -/
def stripTrailingSentinel? (r : Recognizer) (content : List Char) : Option (List Char) :=
  if r.sentinel.isEmpty then none
  else (Text.stripEnd? r.sentinel content).map Text.trimEnd

/-- What follows a sentinel that stands directly after the keyword or as the next word. -/
def stripLeadingSentinel? (r : Recognizer) (rest : List Char) : Option (List Char) :=
  if r.sentinel.isEmpty then none
  else
    match Text.stripStart? r.sentinel rest with
    | some after => some after
    | none =>
      if Text.atBoundary rest then
        (Text.stripStart? r.sentinel (Text.trimStart rest)).filter Text.atBoundary
      else none

/-- What follows `keyword` where letter case is ignored, one character at a time. -/
def stripFolded? : List Char → List Char → Option (List Char)
  | [], s => some s
  | _ :: _, [] => none
  | expected :: keyword, actual :: s =>
    if Text.lowerChar actual = Text.lowerChar expected then stripFolded? keyword s else none

def stripKeyword? (r : Recognizer) (content keyword : List Char) : Option (List Char) :=
  if r.caseSensitive then Text.stripStart? keyword content else stripFolded? keyword content

/-- The name is what follows the keyword, if anything but blanks does. -/
def nameOf (rest : List Char) : Option String :=
  let name := Text.trim rest
  if name.isEmpty then none else some (String.ofList name)

/-- Reads the content after one opening keyword. -/
def startAfter? (r : Recognizer) (line : Nat) (fold : Bool) (rest : List Char) : Option Marker :=
  let (fold, rest) :=
    match r.stripLeadingSentinel? rest with
    | some after => (true, after)
    | none => (fold, rest)
  if Text.atBoundary rest then some ⟨line, .start, nameOf rest, fold⟩ else none

def startMarker? (r : Recognizer) (line : Nat) (content : List Char) (fold : Bool) :
    Option Marker :=
  r.startKeywords.findSome? fun keyword =>
    (r.stripKeyword? content keyword).bind (r.startAfter? line fold)

def endMarker? (r : Recognizer) (line : Nat) (content : List Char) : Option Marker :=
  r.endKeywords.findSome? fun keyword =>
    (r.stripKeyword? content keyword).bind fun rest =>
      if Text.atBoundary rest then some ⟨line, .finish, nameOf rest, false⟩ else none

def parseLine (r : Recognizer) (line : Nat) (text : String) : Option Marker :=
  let content := r.content (Text.trim text.toList)
  let (fold, content) :=
    match r.stripTrailingSentinel? content with
    | some before => (true, before)
    | none => (r.foldAll, content)
  (r.startMarker? line content fold).or (r.endMarker? line content)

/-- The markers of the given lines in line order. Where several entries for one line are markers
the first of them is kept. -/
def collect (r : Recognizer) (entries : List CommentLine) : List Marker :=
  let found := entries.filterMap fun entry => r.parseLine entry.line entry.text
  dedupBy Marker.line (found.mergeSort fun a b => a.line ≤ b.line)

end Recognizer

/-- Reads one comment line under the given settings. -/
def Marker.parse? (settings : Settings) (line : Nat) (text : String) : Option Marker :=
  (Recognizer.ofSettings settings).parseLine line text

end Foldmark

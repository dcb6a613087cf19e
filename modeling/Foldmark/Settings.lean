import Foldmark.Text.Blank

/-!
# Settings of the marker grammar

What a region marker looks like: the words that open and close a region, the sentinel that asks
for a folded region, and the comment signs around them. `Settings.check` refuses settings with no
usable word or sentinel.
-/
namespace Foldmark

structure Settings where
  caseSensitive : Bool := false
  startKeywords : List String := ["region", "#region"]
  endKeywords : List String := ["endregion", "#endregion"]
  foldSentinel : String := "+"
  foldAllByDefault : Bool := false
  /-- Comment openers, tried in this order: the first that fits is taken off. -/
  commentPrefixes : List String := ["///", "//!", "//", "#", "<!--", "--", "/**", "/*", "*", ";"]
  /-- Closers of block comments, tried in this order. -/
  blockCommentClosers : List String := ["*/", "-->"]
  deriving Repr, DecidableEq

namespace Settings

/-- Why settings are refused. -/
inductive Fault where
  | noStartKeyword
  | noEndKeyword
  | noSentinel
  deriving Repr, DecidableEq

def Fault.message : Fault → String
  | .noStartKeyword => "start_keywords must contain at least one keyword"
  | .noEndKeyword => "end_keywords must contain at least one keyword"
  | .noSentinel => "fold_sentinel must not be empty"

def isBlankText (s : String) : Bool :=
  (Text.trim s.toList).isEmpty

def check (settings : Settings) : Except Fault Unit :=
  if settings.startKeywords.all isBlankText then .error .noStartKeyword
  else if settings.endKeywords.all isBlankText then .error .noEndKeyword
  else if isBlankText settings.foldSentinel then .error .noSentinel
  else .ok ()

end Settings

end Foldmark

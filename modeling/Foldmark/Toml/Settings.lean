import Foldmark.Settings
import Foldmark.Toml.Reader
import Foldmark.Volume

/-!
# Settings from TOML

Settings that a document leaves out keep their defaults, and keys that are not settings are ignored.
-/
namespace Foldmark

namespace Toml

def Value.flag? : Value → Option Bool
  | flag value => some value
  | _ => none

def Value.text? : Value → Option String
  | text value => some value
  | _ => none

def Value.texts? : Value → Option (List String)
  | list items => items.mapM text?
  | _ => none

/-- The value of a key, or the default if the key is absent. -/
def Entries.getOr {α : Type} (entries : Entries) (key : String) (default : α)
    (decode? : Value → Option α) : Option α :=
  match entries.lookup key with
  | none => some default
  | some value => decode? value

end Toml

namespace Settings

def ofEntries? (entries : Toml.Entries) : Option Settings := do
  let base : Settings := {}
  return {
    caseSensitive := ← entries.getOr "case_sensitive" base.caseSensitive Toml.Value.flag?
    startKeywords := ← entries.getOr "start_keywords" base.startKeywords Toml.Value.texts?
    endKeywords := ← entries.getOr "end_keywords" base.endKeywords Toml.Value.texts?
    foldSentinel := ← entries.getOr "fold_sentinel" base.foldSentinel Toml.Value.text?
    foldAllByDefault := ←
      entries.getOr "fold_all_by_default" base.foldAllByDefault Toml.Value.flag?
    commentPrefixes := ← entries.getOr "comment_prefixes" base.commentPrefixes Toml.Value.texts?
    blockCommentClosers := ←
      entries.getOr "block_comment_closers" base.blockCommentClosers Toml.Value.texts? }

/-- Why no settings can be had from a document. -/
inductive LoadFault where
  | trouble (cause : Trouble)
  /-- The document is not TOML, or a setting has a value of the wrong kind. -/
  | malformed
  | refused (cause : Settings.Fault)
  deriving Repr, DecidableEq

def LoadFault.message : LoadFault → String
  | trouble cause => "IO error: " ++ cause.message
  | malformed => "Invalid config file: "
  | refused cause => "Invalid configuration: " ++ cause.message

def ofToml (text : String) : Except LoadFault Settings :=
  match (Toml.document? text.toList).bind ofEntries? with
  | none => .error .malformed
  | some settings =>
    match settings.check with
    | .error cause => .error (.refused cause)
    | .ok () => .ok settings

def load (volume : Volume) (path : Path) : Except LoadFault Settings :=
  match volume.readText path with
  | .error cause => .error (.trouble cause)
  | .ok text => ofToml text

end Settings

end Foldmark

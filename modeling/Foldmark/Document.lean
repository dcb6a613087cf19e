import Foldmark.Comment.Extraction
import Foldmark.Ignore.Filter

/-!
# Documents

A document is a file that has been read and outlined.
-/
namespace Foldmark

structure Document where
  content : String
  language : Language
  outline : Outline

namespace Document

inductive Fault where
  /-- No language has the extension. -/
  | unsupported (extension : String)
  | trouble (cause : Trouble)
  | comments (cause : Comment.Fault)
  deriving Repr, DecidableEq

def Fault.message : Fault → String
  | unsupported extension => "Unsupported file extension: " ++ extension
  | trouble cause => cause.message
  | comments cause => cause.message

/-- The language of a path by its extension. -/
def languageOf (path : Path) : Except Fault Language :=
  match path.language? with
  | some language => .ok language
  | none => .error (.unsupported (path.extension?.getD ""))

def ofFile (parser : Comment.Parser) (settings : Settings) (volume : Volume) (path : Path) :
    Except Fault Document := do
  let language ← languageOf path
  let content ← (volume.readText path).mapError .trouble
  let outline ← (Outline.ofSource parser settings language content).mapError .comments
  return ⟨content, language, outline⟩

end Document

end Foldmark

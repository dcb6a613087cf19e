import Foldmark.Comment.Tree
import Foldmark.Language
import Foldmark.Outline.Reading

/-!
# Comments and outlines of a source

The comment lines of a source in any of the languages, and the outline that they give. The syntax
trees come from a parser that is no part of the library, and it may fail.
-/
namespace Foldmark

namespace Comment

/-- What a parser does with each language: it refuses the grammar for some reason, or gives trees of
sources, though not of every source. -/
abbrev Parser := Language → Except String (String → Option Forest)

/-- Why there are no comment lines. -/
inductive Fault where
  | grammar (reason : String)
  | source (language : Language)
  deriving Repr, DecidableEq

def Fault.message : Fault → String
  | grammar reason => "Failed to initialize parser: " ++ reason
  | source .python => "Failed to parse source code: Failed to parse Python source"
  | source language =>
    "Failed to parse source code: Failed to parse " ++ language.label ++ " source"

end Comment

/-- The kinds of the nodes that are comments. -/
def Language.commentKinds : Language → List String
  | python => ["comment"]
  | javaScript => ["comment", "html_comment"]
  | typeScript => ["comment", "html_comment"]

def Language.commentLines (parser : Comment.Parser) (language : Language) (source : String) :
    Except Comment.Fault (List CommentLine) :=
  match parser language with
  | .error reason => .error (.grammar reason)
  | .ok parse =>
    match parse source with
    | none => .error (.source language)
    | some tree => .ok (Comment.lines language.commentKinds source.toList tree)

def Outline.ofSource (parser : Comment.Parser) (settings : Settings) (language : Language)
    (source : String) : Except Comment.Fault Outline :=
  (language.commentLines parser source).map (Outline.ofCommentLines settings)

end Foldmark

import Foldmark.Text.Lowercase

/-!
# Languages

The languages whose comments are read, and the file name extensions that tell them apart.
-/
namespace Foldmark

inductive Language where
  | python
  | javaScript
  | typeScript
  deriving Repr, DecidableEq

namespace Language

def label : Language → String
  | python => "python"
  | javaScript => "javascript"
  | typeScript => "typescript"

/-- The language of an extension in any letter case. -/
def ofExtension? (extension : String) : Option Language :=
  let small := String.ofList (Text.lower extension.toList)
  if small ∈ ["py", "pyi"] then some python
  else if small ∈ ["js", "mjs", "cjs", "jsx"] then some javaScript
  else if small ∈ ["ts", "mts", "cts", "tsx"] then some typeScript
  else none

end Language

end Foldmark

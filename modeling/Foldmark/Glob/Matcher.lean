import Foldmark.Glob.Parser

/-!
# Matching paths

A glob matches a path as a whole. A path that ends in `..` has no name of its own, so a glob that is
decided by the name or by the extension does not match it.
-/
namespace Foldmark

/-- A glob that has been read. -/
structure Glob where
  options : Glob.Options := {}
  tokens : List Glob.Token

namespace Glob

def ofString (options : Options) (glob : String) : Except Fault Glob :=
  (parse options glob.toList).map fun tokens => ⟨options, tokens⟩

def pattern (glob : Glob) : Pattern :=
  if glob.tokens = [.directoriesFirst] then .anything
  else (Token.patternOf? glob.options glob.tokens).getD .empty

/-- Whether the tokens are two stars and a name. -/
def isName : List Token → Bool
  | .directoriesFirst :: rest =>
    !rest.isEmpty && rest.all Token.isLiteral && !rest.contains (.literal '/')
  | _ => false

/-- Whether the tokens are a star and an extension. -/
def isExtension (options : Options) (tokens : List Token) : Bool :=
  let (lead, rest) := match tokens with
    | .directoriesFirst :: rest => (true, rest)
    | _ => (false, tokens)
  match rest with
  | .star :: .literal '.' :: name =>
    (lead || !options.slashApart) && name.all Token.isLiteral
      && !name.contains (.literal '.') && !name.contains (.literal '/')
  | _ => false

/-- Whether the tokens are an end of the path, after stars that match everything. -/
def isSuffix (options : Options) (tokens : List Token) : Bool :=
  let rest := match tokens with
    | .directoriesFirst :: rest => rest
    | _ => tokens
  match rest with
  | .star :: name => !options.slashApart && name.all Token.isLiteral && !name.isEmpty
  | name => name.all Token.isLiteral && !name.isEmpty

/-- Whether the tokens end in a dot and a name. -/
def endsInExtension (tokens : List Token) : Bool :=
  let back := tokens.reverse
  let name := back.takeWhile fun t => t.isLiteral && t != .literal '.' && t != .literal '/'
  back[name.length]? == some (.literal '.')

/-- Whether the name of a path decides if the glob matches. -/
def readsName (glob : Glob) : Bool :=
  isName glob.tokens || isExtension glob.options glob.tokens
    || (!isSuffix glob.options glob.tokens && endsInExtension glob.tokens)

/-- Whether the last segment of a path is `..`. -/
def endsUp (octets : List UInt8) : Bool :=
  (Path.segments octets).getLast? == some [Path.dot, Path.dot]

def accepts (glob : Glob) (octets : List UInt8) : Bool :=
  glob.pattern.accepts octets && !(glob.readsName && endsUp octets)

end Glob

end Foldmark

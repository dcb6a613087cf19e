import Foldmark.Glob.Token

/-!
# Reading globs

`parse` reads a glob as tokens or says what is wrong with it.
-/
namespace Foldmark.Glob

inductive Fault where
  | unclosedBracket
  | invalidRange (low high : Char)
  | unclosedGroup
  | unopenedGroup
  | danglingEscape
  deriving Repr, DecidableEq

def Fault.message : Fault → String
  | unclosedBracket => "unclosed character class; missing ']'"
  | invalidRange low high =>
    String.ofList ("invalid range; '".toList ++ low :: "' > '".toList ++ high :: "'".toList)
  | unclosedGroup =>
    "unclosed alternate group; missing '\x7d' (maybe escape '\x7b' with '[\x7b]'?)"
  | unopenedGroup =>
    "unopened alternate group; missing '\x7b' (maybe escape '\x7d' with '[\x7d]'?)"
  | danglingEscape => "dangling '\\'"

/-- The fault with the glob that has it. -/
def Fault.report (glob : String) (fault : Fault) : String :=
  "error parsing glob '" ++ glob ++ "': " ++ fault.message

/-- What stands before an open group and which of its branches are complete. -/
structure Frame where
  /-- Last first. -/
  before : List Token
  /-- Last first, each in order. -/
  branches : List (List Token)

structure State where
  frames : List Frame := []
  /-- The tokens of the current branch, last first. -/
  current : List Token := []
  /-- The character before. -/
  previous : Option Char := none
  /-- Whether a bracket may still open. -/
  brackets : Bool := true

namespace State

def push (state : State) (token : Token) : State :=
  { state with current := token :: state.current }

def pushTwoStars (state : State) : State :=
  (state.push .star).push .star

end State

/-- Members of a bracket up to the one that closes it, and what follows. The members read so far
are given last first; `first` says that nothing was read, `half` that a hyphen waits for the end of
its range. Gives none if the bracket is never closed. -/
def bracketMembers (first half : Bool) (ranges : List (Char × Char)) :
    List Char → Except Fault (Option (List (Char × Char) × List Char))
  | [] => .ok none
  | c :: rest =>
    if c = ']' ∧ ¬first then
      let ranges := if half then ('-', '-') :: ranges else ranges
      .ok (some (ranges.reverse, rest))
    else if c = '-' ∧ ¬first ∧ ¬half then bracketMembers false true ranges rest
    else
      match half, ranges with
      | true, (low, _) :: others =>
        if c < low then .error (.invalidRange low c)
        else bracketMembers false false ((low, c) :: others) rest
      | _, _ => bracketMembers false false ((c, c) :: ranges) rest

/-- Whether a bracket is negated, and what follows the sign. -/
def bracketSign : List Char → Bool × List Char
  | '!' :: rest => (true, rest)
  | '^' :: rest => (true, rest)
  | rest => (false, rest)

/-- What two stars stand for, where `rest` follows them: the state, and the number of further
characters that belong to them. -/
def twoStars (state : State) (rest : List Char) : State × Nat :=
  let next := rest.head?
  let inGroup := !state.frames.isEmpty
  match state.current with
  | [] =>
    match next with
    | none => (state.push .directoriesFirst, 0)
    | some c =>
      if c = '/' then (state.push .directoriesFirst, 1)
      else (state.pushTwoStars, 0)
  | last :: before =>
    let opens := state.previous = some '/' ∨
      (inGroup ∧ (state.previous = some ',' ∨ state.previous = some '\x7b'))
    if ¬opens then (state.pushTwoStars, 0)
    else
      let closed : Option (Token × Nat) :=
        match next with
        | none => some (.directoriesLast, 0)
        | some c =>
          if c = '/' then some (.directories, 1)
          else if inGroup ∧ (c = ',' ∨ c = '\x7d') then some (.directoriesLast, 0)
          else none
      match closed with
      | none => (state.pushTwoStars, 0)
      | some (token, more) =>
        let kept := match last with
          | .directoriesFirst => .directoriesFirst
          | .directoriesLast => .directoriesLast
          | _ => token
        ({ state with current := kept :: before }, more)

/-- Closes the innermost group. -/
def closeGroup (options : Options) (state : State) : Except Fault State :=
  match state.frames with
  | [] => .error .unopenedGroup
  | frame :: frames =>
    let branches := (state.current.reverse :: frame.branches).reverse
    .ok { state with frames, current := .ofBranches options branches :: frame.before }

/-- A comma begins another branch of a group. -/
def comma (state : State) : State :=
  match state.frames with
  | [] => state.push (.literal ',')
  | frame :: frames =>
    { state with
      frames := { frame with branches := state.current.reverse :: frame.branches } :: frames,
      current := [] }

/-- One construct at a character: the state after it, and the number of further characters that it
takes. -/
def step (options : Options) (state : State) (c : Char) (rest : List Char) :
    Except Fault (State × Nat) :=
  if c = '?' then .ok (state.push .any, 0)
  else if c = '*' then
    match rest with
    | '*' :: more =>
      let (state, count) := twoStars state more
      .ok (state, count + 1)
    | _ => .ok (state.push .star, 0)
  else if c = '[' ∧ state.brackets then do
    let (negated, inner) := bracketSign rest
    match ← bracketMembers true false [] inner with
    | some (ranges, after) =>
      return (state.push (.oneOf negated ranges), rest.length - after.length)
    | none =>
      if options.openBrackets then
        return ({ state.push (.literal '[') with brackets := false }, 0)
      else throw .unclosedBracket
  else if c = '\x7b' then
    .ok ({ state with frames := ⟨state.current, []⟩ :: state.frames, current := [] }, 0)
  else if c = '\x7d' then (closeGroup options state).map fun state => (state, 0)
  else if c = ',' then .ok (comma state, 0)
  else if c = '\\' then
    match rest with
    | [] => .error .danglingEscape
    | escaped :: _ => .ok (state.push (.literal escaped), 1)
  else .ok (state.push (.literal c), 0)

def parseFrom (options : Options) (state : State) : List Char → Except Fault (List Token)
  | [] => if state.frames.isEmpty then .ok state.current.reverse else .error .unclosedGroup
  | c :: rest => do
    let (after, more) ← step options state c rest
    let previous := (c :: rest.take more).getLast?
    parseFrom options { after with previous } (rest.drop more)
  termination_by glob => glob.length
  decreasing_by simp only [List.length_drop, List.length_cons]; omega

def parse (options : Options) (glob : List Char) : Except Fault (List Token) :=
  parseFrom options {} glob

end Foldmark.Glob

import Foldmark.Command.Draft

/-!
# Reading the command line

Arguments are read one by one. The name of a command ends the options of the project survey and
begins those of the command, unless it is the value of an option or stands after `--`.
-/
namespace Foldmark.Command

/-- What is asked for. -/
inductive Action where
  | scan (draft : Draft)
  | list (file : Path) (format : Report.Format)
  /-- The fold tokens of all lines, or of one. -/
  | tokens (file : Path) (line : Option Nat)
  | render (file : Path) (ansi : Bool)
  deriving Repr, DecidableEq

structure Invocation where
  shared : Shared
  action : Action
  deriving Repr, DecidableEq

/-- Why nothing is run. -/
inductive Stop where
  | version
  | help
  | misuse
  deriving Repr, DecidableEq

inductive Verb where
  | list
  | tokens
  | render
  deriving Repr, DecidableEq

def Verb.ofName? (name : String) : Option Verb :=
  [("list", Verb.list), ("foldexpr", .tokens), ("render", .render)].lookup name

/-- The options that may be given with a verb, or before any. -/
def switches : Option Verb → List Switch
  | none => scanSwitches ++ sharedSwitches
  | some .list => formatSwitch :: sharedSwitches
  | some .tokens => lineSwitch :: sharedSwitches
  | some .render => ansiSwitch :: sharedSwitches

/-- What has been read: the draft, and the option that waits for its value. -/
structure Progress where
  draft : Draft := {}
  waiting : Option (String → Draft → Option Draft) := none

def orMisuse {α : Type} : Option α → Except Stop α
  | some value => .ok value
  | none => .error .misuse

/-- An option with the value that is attached to it, if there is one. -/
def apply (switch : Switch) (attached : Option String) (draft : Draft) : Except Stop Progress :=
  match switch.effect, attached with
  | .flag set, none => (orMisuse (set draft)).map fun draft => { draft }
  | .value set, some text => (orMisuse (set text draft)).map fun draft => { draft }
  | .value set, none => .ok { draft, waiting := some set }
  | .version, none => .error .version
  | .help, none => .error .help
  | _, some _ => .error .misuse

/-- The value after an equals sign, and the name before it. -/
def splitValue (text : List Char) : String × Option String :=
  let name := String.ofList (text.takeWhile (· != '='))
  match text.dropWhile (· != '=') with
  | [] => (name, none)
  | _ :: value => (name, some (String.ofList value))

/-- A long option without its two hyphens. -/
def longOption (known : List Switch) (text : List Char) (draft : Draft) : Except Stop Progress :=
  let (name, attached) := splitValue text
  match known.find? fun switch => switch.long == name with
  | some switch => apply switch attached draft
  | none => .error .misuse

/-- The value attached to a short option; an equals sign before it does not count. -/
def attachedValue? : List Char → Option String
  | [] => none
  | '=' :: rest => some (String.ofList rest)
  | rest => some (String.ofList rest)

/-- Short options without their hyphen. The first one with a value takes all that follows it. -/
def shortOptions (known : List Switch) : List Char → Draft → Except Stop Progress
  | [], draft => .ok { draft }
  | c :: rest, draft =>
    match known.find? fun switch => switch.short == some c with
    | none => .error .misuse
    | some switch =>
      match switch.effect with
      | .value _ => apply switch (attachedValue? rest) draft
      | _ => do
        let progress ← apply switch none draft
        shortOptions known rest progress.draft

/-- The one argument that is no option. -/
def positional (text : String) (draft : Draft) : Except Stop Draft := do
  return { draft with path := ← orMisuse (once draft.path (path? text)) }

/-- Whether an argument is an option or ends them. -/
def isOption (argument : String) : Bool :=
  match argument.toList with
  | '-' :: _ :: _ => true
  | _ => false

/-- Reads arguments up to the end, or up to the name of a verb where one may stand. Gives the draft,
and the verb with the arguments after it. -/
def readArguments (verb : Option Verb) (ended : Bool) (progress : Progress) :
    List String → Except Stop (Draft × Option (Verb × List String))
  | [] => if progress.waiting.isSome then .error .misuse else .ok (progress.draft, none)
  | argument :: rest =>
    match ended, progress.waiting, verb.isNone, Verb.ofName? argument with
    | true, _, _, _ => do
      let draft ← positional argument progress.draft
      readArguments verb true { draft } rest
    | false, some set, _, _ =>
      if isOption argument then .error .misuse
      else do
        let draft ← orMisuse (set argument progress.draft)
        readArguments verb false { draft } rest
    | false, none, true, some found => .ok (progress.draft, some (found, rest))
    | false, none, _, _ =>
      match argument.toList with
      | ['-', '-'] => readArguments verb true progress rest
      | '-' :: '-' :: text => do
        readArguments verb false (← longOption (switches verb) text progress.draft) rest
      | '-' :: c :: text => do
        readArguments verb false (← shortOptions (switches verb) (c :: text) progress.draft) rest
      | _ => do
        readArguments verb false { draft := ← positional argument progress.draft } rest

def Verb.action (verb : Verb) (file : Path) (draft : Draft) : Action :=
  match verb with
  | list => .list file (draft.format.getD .summary)
  | tokens => .tokens file draft.line
  | render => .render file draft.ansi

def Invocation.ofArguments (arguments : List String) : Except Stop Invocation := do
  let (outer, found) ← readArguments none false {} arguments
  match found with
  | none => return ⟨outer.shared, .scan outer⟩
  | some (verb, rest) =>
    let (inner, _) ← readArguments (some verb) false {} rest
    let file ← orMisuse inner.path
    return ⟨inner.shared.over outer.shared, verb.action file inner⟩

end Foldmark.Command

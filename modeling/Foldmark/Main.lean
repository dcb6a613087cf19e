import Foldmark.Command.Run
import Std.Time

/-!
# The program

Reads the part of the file system that a command looks at, runs the command on it with the scanners of
the library, and prints.
-/
namespace Foldmark.Host

/-- The names on the way to an absolute path. -/
def namesOf (place : String) : List (List UInt8) :=
  (Path.segments (Path.ofString place).octets).filter fun segment => !Path.isSkipped segment

/-- The nodes at a place and below it. A link is listed with what it leads to, but not entered. -/
partial def nodesAt (place : String) (enter : Bool) : IO (List (List (List UInt8) × Node)) := do
  let real ← IO.FS.realPath place
  let names := namesOf real.toString
  match (← real.metadata).type with
  | .dir =>
    let mut nodes := [(names, Node.folder)]
    if enter then
      for entry in ← real.readDir do
        match (← entry.path.symlinkMetadata).type with
        | .symlink =>
          if ← entry.path.pathExists then
            let target ← IO.FS.realPath entry.path
            nodes := (← nodesAt target.toString false) ++ nodes
            nodes := (namesOf entry.path.toString, .link (.ofString target.toString)) :: nodes
        | _ => nodes := (← nodesAt entry.path.toString true) ++ nodes
    return nodes
  | _ => return [(names, .file (← IO.FS.readBinFile real).toList)]

/-- The links on the way along the segments of a path, from a place that has been reached. -/
def linksAlong (place : String) : List String → IO (List (List (List UInt8) × Node))
  | [] => return []
  | segment :: rest => do
    let next := place ++ "/" ++ segment
    let real ← try pure (some (← IO.FS.realPath next).toString) catch _ => pure none
    match real with
    | none => return []
    | some real =>
      let written := namesOf place ++ namesOf segment
      let here :=
        if segment == ".." || written == namesOf real then [] else [(written, Node.link (.ofString real))]
      return (namesOf real, .folder) :: here ++ (← linksAlong real rest)

/-- The nodes that a path from the given folder reaches. -/
def nodesOf (folder : String) (path : Path) : IO (List (List (List UInt8) × Node)) := do
  let text := path.display
  let start := if text.startsWith "/" then "/" else folder
  let way ← linksAlong start (text.splitOn "/")
  let full := start ++ "/" ++ text
  let found ← try nodesAt full true catch _ => pure []
  return found ++ way

/-- What is recorded about a run that began at the given time. -/
def runInfo (milliseconds : Nat) (timestamp : String) (files : Nat) : RunInfo :=
  { durationMs := milliseconds
    filesPerSecond :=
      if milliseconds = 0 then 0 else files.toFloat * 1000 / milliseconds.toFloat
    timestamp
    toolVersion := Survey.toolVersion }

def now : IO String := do
  let moment := Std.Time.DateTime.ofTimestamp (← Std.Time.Timestamp.now) Std.Time.TimeZone.ZoneRules.UTC
  return moment.toPlainDateTime.toLeanDateTimeString ++ "+00:00"

end Foldmark.Host

open Foldmark Foldmark.Host in
def main (arguments : List String) : IO UInt32 := do
  let began ← IO.monoMsNow
  let folder := (← IO.FS.realPath (← IO.currentDir)).toString
  let paths := match Command.Invocation.ofArguments arguments with
    | .ok invocation => invocation.paths
    | .error _ => []
  let nodes ← paths.mapM (nodesOf folder)
  let volume := Volume.ofNodes (namesOf folder) nodes.flatten
  let stamp ← now
  let outcome := Command.run .own arguments volume (runInfo ((← IO.monoMsNow) - began) stamp)
  if let some (path, text) := outcome.written then IO.FS.writeFile path.display text
  IO.print outcome.output
  IO.eprint outcome.errors
  return outcome.exit

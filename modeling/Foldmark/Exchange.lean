import Foldmark.Datum
import Foldmark.Fold
import Foldmark.Json.Decode
import Foldmark.Json.Reader
import Foldmark.Json.Writer
import Foldmark.Marker.Basic
import Foldmark.Settings
import Foldmark.Survey.Tally

/-!
# Exchange forms

How each record is written as data and read from a JSON value. A field without a value is left
out. A path can be written only if it is text.
-/
namespace Foldmark

open Json (Value)

namespace MarkerKind

def toDatum (kind : MarkerKind) : Datum := .text kind.label

def ofJson? : Value → Option MarkerKind :=
  Value.label? [("start", .start), ("end", .finish)]

end MarkerKind

/-- The field of an optional text. -/
def Datum.optionalText (key : String) : Option String → List (String × Datum)
  | some value => [(key, .text value)]
  | none => []

namespace Marker

def toDatum (marker : Marker) : Datum :=
  .record ([("line", .natural marker.line), ("kind", marker.kind.toDatum)] ++
    Datum.optionalText "name" marker.name ++ [("fold_default", .flag marker.foldDefault)])

def ofJson? (value : Value) : Option Marker := do
  match ← value.fields? ["line", "kind", "name", "fold_default"] with
  | [line, kind, name, fold] =>
    return {
      line := ← Value.required? Value.counter? line
      kind := ← Value.required? MarkerKind.ofJson? kind
      name := ← Value.optional? none (Value.orNull? Value.text?) name
      foldDefault := ← Value.optional? false Value.flag? fold }
  | _ => none

end Marker

namespace CommentLine

def toDatum (entry : CommentLine) : Datum :=
  .record [("line", .natural entry.line), ("text", .text entry.text)]

def ofJson? (value : Value) : Option CommentLine := do
  match ← value.fields? ["line", "text"] with
  | [line, text] =>
    return {
      line := ← Value.required? Value.counter? line
      text := ← Value.required? Value.text? text }
  | _ => none

end CommentLine

namespace Region

def toDatum (region : Region) : Datum :=
  .record ([("start_line", .natural region.startLine), ("end_line", .natural region.endLine),
    ("level", .natural region.level)] ++ Datum.optionalText "name" region.name ++
    [("fold", .flag region.fold)])

def ofJson? (value : Value) : Option Region := do
  match ← value.fields? ["start_line", "end_line", "level", "name", "fold"] with
  | [startLine, endLine, level, name, fold] =>
    return {
      startLine := ← Value.required? Value.counter? startLine
      endLine := ← Value.required? Value.counter? endLine
      level := ← Value.required? Value.counter? level
      name := ← Value.optional? none (Value.orNull? Value.text?) name
      fold := ← Value.optional? false Value.flag? fold }
  | _ => none

end Region

namespace FaultKind

def toDatum (kind : FaultKind) : Datum := .text kind.label

def ofJson? : Value → Option FaultKind :=
  Value.label? [("unmatched_end", .unmatchedEnd), ("mismatched_name", .mismatchedName),
    ("unclosed_start", .unclosedStart)]

end FaultKind

namespace Fault

def toDatum (fault : Fault) : Datum :=
  .record [("line", .natural fault.line), ("kind", fault.kind.toDatum),
    ("message", .text fault.message)]

def ofJson? (value : Value) : Option Fault := do
  match ← value.fields? ["line", "kind", "message"] with
  | [line, kind, message] =>
    return {
      line := ← Value.required? Value.counter? line
      kind := ← Value.required? FaultKind.ofJson? kind
      message := ← Value.required? Value.text? message }
  | _ => none

end Fault

namespace Outline

def toDatum (outline : Outline) : Datum :=
  .record [("regions", .list (outline.regions.map Region.toDatum)),
    ("errors", .list (outline.faults.map Fault.toDatum))]

def ofJson? (value : Value) : Option Outline := do
  match ← value.fields? ["regions", "errors"] with
  | [regions, faults] =>
    return {
      regions := ← Value.required? (Value.listOf? Region.ofJson?) regions
      faults := ← Value.required? (Value.listOf? Fault.ofJson?) faults }
  | _ => none

end Outline

namespace FoldDirective

def toDatum : FoldDirective → Datum
  | startsAt level => .record [("kind", .text "starts_at"), ("level", .natural level)]
  | continues level => .record [("kind", .text "continues"), ("level", .natural level)]
  | noFold => .record [("kind", .text "no_fold")]

/-- The directive of a kind, given the level that is written beside it, if any. -/
def ofKind? (kind : Value) (level : Option Value) : Option FoldDirective := do
  match ← kind.label? [("starts_at", some startsAt), ("continues", some continues),
    ("no_fold", none)] with
  | some directive => return directive (← Value.required? Value.counter? level)
  | none =>
    match level with
    | none => return noFold
    | some .null => return noFold
    | some _ => none

/-- A list holds exactly the kind and the level. -/
def ofJson? : Value → Option FoldDirective
  | .list [kind, level] => ofKind? kind (some level)
  | .list _ => none
  | value => do
    match ← value.fields? ["kind", "level"] with
    | [some kind, level] => ofKind? kind level
    | _ => none

end FoldDirective

namespace Language

def toDatum (language : Language) : Datum := .text language.label

def ofJson? : Value → Option Language :=
  Value.label? [("python", .python), ("javascript", .javaScript), ("typescript", .typeScript)]

end Language

def Path.toDatum? (path : Path) : Option Datum :=
  path.text?.map Datum.text

def Path.ofJson? (value : Value) : Option Path :=
  value.text?.map Path.ofString

namespace SourceFile

def toDatum? (file : SourceFile) : Option Datum := do
  let path ← file.path.toDatum?
  let location ← file.location.toDatum?
  return .record ([("path", path), ("absolute_path", location),
    ("language", file.language.toDatum), ("snapshot", file.outline.toDatum),
    ("line_count", .natural file.lineCount), ("parsed", .flag file.parsed)] ++
    Datum.optionalText "error" file.problem)

def ofJson? (value : Value) : Option SourceFile := do
  match ← value.fields?
    ["path", "absolute_path", "language", "snapshot", "line_count", "parsed", "error"] with
  | [path, location, language, outline, lineCount, parsed, problem] =>
    return {
      path := ← Value.required? Path.ofJson? path
      location := ← Value.required? Path.ofJson? location
      language := ← Value.required? Language.ofJson? language
      outline := ← Value.required? Outline.ofJson? outline
      lineCount := ← Value.required? Value.counter? lineCount
      parsed := ← Value.required? Value.flag? parsed
      problem := ← Value.optional? none (Value.orNull? Value.text?) problem }
  | _ => none

end SourceFile

namespace Tally

/-- The names of the counters in the order in which they are written. -/
def names : List String :=
  ["total_files", "files_with_regions", "files_with_errors", "total_regions", "folded_regions",
    "max_level", "unmatched_end", "mismatched_name", "unclosed_start", "python_files",
    "javascript_files", "typescript_files", "total_lines", "region_lines"]

def counters (tally : Tally) : List Nat :=
  [tally.totalFiles, tally.filesWithRegions, tally.filesWithErrors, tally.totalRegions,
    tally.foldedRegions, tally.maxLevel, tally.unmatchedEnd, tally.mismatchedName,
    tally.unclosedStart, tally.pythonFiles, tally.javaScriptFiles, tally.typeScriptFiles,
    tally.totalLines, tally.regionLines]

def toDatum (tally : Tally) : Datum :=
  .record (names.zip (tally.counters.map Datum.natural))

def ofJson? (value : Value) : Option Tally := do
  match ← (← value.fields? names).mapM (Value.required? Value.counter?) with
  | [totalFiles, filesWithRegions, filesWithErrors, totalRegions, foldedRegions, maxLevel,
      unmatchedEnd, mismatchedName, unclosedStart, pythonFiles, javaScriptFiles, typeScriptFiles,
      totalLines, regionLines] =>
    return { totalFiles, filesWithRegions, filesWithErrors, totalRegions, foldedRegions, maxLevel,
             unmatchedEnd, mismatchedName, unclosedStart, pythonFiles, javaScriptFiles,
             typeScriptFiles, totalLines, regionLines }
  | _ => none

end Tally

namespace RunInfo

def toDatum (info : RunInfo) : Datum :=
  .record [("scan_duration_ms", .natural info.durationMs),
    ("files_per_second", .real info.filesPerSecond), ("timestamp", .text info.timestamp),
    ("tool_version", .text info.toolVersion)]

def ofJson? (value : Value) : Option RunInfo := do
  match ← value.fields? ["scan_duration_ms", "files_per_second", "timestamp", "tool_version"] with
  | [durationMs, filesPerSecond, timestamp, toolVersion] =>
    return {
      durationMs := ← Value.required? Value.counter? durationMs
      filesPerSecond := ← Value.required? Value.float? filesPerSecond
      timestamp := ← Value.required? Value.text? timestamp
      toolVersion := ← Value.required? Value.text? toolVersion }
  | _ => none

end RunInfo

namespace Survey

def toDatum? (survey : Survey) : Option Datum := do
  let root ← survey.root.toDatum?
  let files ← survey.files.mapM SourceFile.toDatum?
  return .record [("root", root), ("files", .list files), ("stats", survey.tally.toDatum),
    ("metadata", survey.info.toDatum)]

def ofJson? (value : Value) : Option Survey := do
  match ← value.fields? ["root", "files", "stats", "metadata"] with
  | [root, files, tally, info] =>
    return {
      root := ← Value.required? Path.ofJson? root
      files := ← Value.required? (Value.listOf? SourceFile.ofJson?) files
      tally := ← Value.required? Tally.ofJson? tally
      info := ← Value.required? RunInfo.ofJson? info }
  | _ => none

end Survey

namespace Settings

def toDatum (settings : Settings) : Datum :=
  .record [("case_sensitive", .flag settings.caseSensitive),
    ("start_keywords", .list (settings.startKeywords.map Datum.text)),
    ("end_keywords", .list (settings.endKeywords.map Datum.text)),
    ("fold_sentinel", .text settings.foldSentinel),
    ("fold_all_by_default", .flag settings.foldAllByDefault),
    ("comment_prefixes", .list (settings.commentPrefixes.map Datum.text)),
    ("block_comment_closers", .list (settings.blockCommentClosers.map Datum.text))]

/-- Settings that are left out keep their defaults. -/
def ofJson? (value : Value) : Option Settings := do
  let base : Settings := {}
  let words := Value.listOf? Value.text?
  match ← value.fields? ["case_sensitive", "start_keywords", "end_keywords", "fold_sentinel",
    "fold_all_by_default", "comment_prefixes", "block_comment_closers"] with
  | [caseSensitive, startKeywords, endKeywords, foldSentinel, foldAll, openers, closers] =>
    return {
      caseSensitive := ← Value.optional? base.caseSensitive Value.flag? caseSensitive
      startKeywords := ← Value.optional? base.startKeywords words startKeywords
      endKeywords := ← Value.optional? base.endKeywords words endKeywords
      foldSentinel := ← Value.optional? base.foldSentinel Value.text? foldSentinel
      foldAllByDefault := ← Value.optional? base.foldAllByDefault Value.flag? foldAll
      commentPrefixes := ← Value.optional? base.commentPrefixes words openers
      blockCommentClosers := ← Value.optional? base.blockCommentClosers words closers }
  | _ => none

end Settings

end Foldmark

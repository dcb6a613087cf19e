import Foldmark.Exchange
import Foldmark.Report.Listing
import Foldmark.Report.Summary
import Foldmark.Yaml.Writer

/-!
# Output formats

One file or a whole survey in any of the four formats.
-/
namespace Foldmark.Report

inductive Format where
  | json
  | yaml
  | summary
  | ansi
  deriving Repr, DecidableEq

def Format.label : Format → String
  | .json => "json"
  | .yaml => "yaml"
  | .summary => "summary"
  | .ansi => "ansi"

def Format.all : List Format := [.json, .yaml, .summary, .ansi]

def Format.ofLabel? (label : String) : Option Format :=
  Format.all.find? fun format => format.label == label

/-- Why something cannot be shown. -/
inductive Error where
  | overflow (cause : Overflow)
  /-- A path that is no text cannot be written in a data format. -/
  | jsonPath
  | yamlPath
  deriving Repr, DecidableEq

/-- What is wrong with the value itself. -/
def Error.cause? : Error → Option String
  | .overflow _ => none
  | .jsonPath => some "path contains invalid UTF-8 characters"
  | .yamlPath => some "path contains invalid UTF-8 characters"

def Error.message : Error → String
  | .overflow cause => cause.message
  | .jsonPath => "JSON serialization error: path contains invalid UTF-8 characters"
  | .yamlPath => "YAML serialization error: path contains invalid UTF-8 characters"

def ofOverflow {α : Type} : Except Overflow α → Except Error α :=
  Except.mapError Error.overflow

def asJson : Option Datum → Except Error String
  | some datum => .ok (Json.pretty datum)
  | none => .error .jsonPath

def asYaml : Option Datum → Except Error String
  | some datum => .ok (Yaml.document datum)
  | none => .error .yamlPath

def file (format : Format) (source : SourceFile) : Except Error String :=
  match format with
  | .json => asJson source.toDatum?
  | .yaml => asYaml source.toDatum?
  | .summary => ofOverflow ((listing source).map (Text.Styled.render false))
  | .ansi => ofOverflow ((listing source).map (Text.Styled.render true))

def survey (format : Format) (found : Survey) : Except Error String :=
  match format with
  | .json => asJson found.toDatum?
  | .yaml => asYaml found.toDatum?
  | .summary => ofOverflow (summary found)
  | .ansi => ofOverflow ((colouredSummary found).map (Text.Styled.render true))

end Foldmark.Report

import ZeroAlloc.FilePath
import ZeroAlloc.Json
import ZeroAlloc.Report.Summary
set_option autoImplicit false

/-! # The SARIF report

The interchange format of static analysis. Files are named relative to the path that was
examined. -/

namespace ZeroAlloc.Report.Sarif

/-- The word of the format for a severity. -/
def level : Severity → String
  | .error => "error"
  | .warning => "warning"
  | .info => "note"

/-- A text as the name of a resource, whose pieces are separated by slashes. -/
def withSlashes (text : String) : String :=
  String.ofList (text.toList.map fun c => if c = '\\' then '/' else c)

/-- The name of a file relative to the examined path. A file that was examined by itself goes by its
file name, and one that is not below the path by its whole path. -/
def relativeUri (file base : String) : String :=
  if base.isEmpty then file
  else
    let path := FilePath.parse file
    if path.same (.parse base) then path.fileName?.getD file
    else
      match (FilePath.parse base).below? path with
      | some rest => withSlashes rest.text
      | none => file

/-- A text in an object of its own. -/
def message (text : String) : Json :=
  .object [("text", .string text)]

/-- The description of the rule. -/
def rule (defaultLevel : String) : Json :=
  .object [
    ("id", .string ruleId),
    ("name", .string ruleName),
    ("shortDescription", message "Avoid zero-length array allocations"),
    ("fullDescription", message
      ("Allocating a zero-length array wastes memory; every empty array of a type is " ++
        "interchangeable, so use the shared instance returned by Array.Empty instead.")),
    ("helpUri", .string (toolUri ++ "#ca1825")),
    ("defaultConfiguration", .object [("level", .string defaultLevel)])]

/-- A diagnostic in the report. Lines and columns start at one. -/
def result (base : String) (d : Diagnostic) : Json :=
  let region : Json := .object [
    ("startLine", .number (max d.line 1)),
    ("startColumn", .number (max d.column 1)),
    ("endLine", .number (max d.endLine 1)),
    ("endColumn", .number (max d.endColumn 1))]
  .object [
    ("ruleId", .string d.ruleId),
    ("level", .string (level d.severity)),
    ("message", message d.message),
    ("locations", .array [.object [("physicalLocation", .object [
      ("artifactLocation", .object [("uri", .string (relativeUri d.file base))]),
      ("region", region)])]])]

/-- The report on the files under a path. The rule has the level of the first diagnostic. -/
def report (base : String) (r : DetectionResult) : Json :=
  let defaultLevel := (r.diagnostics.head?.map fun d => level d.severity).getD "warning"
  let driver : Json := .object [
    ("name", .string toolName),
    ("version", .string toolVersion),
    ("informationUri", .string toolUri),
    ("rules", .array [rule defaultLevel])]
  .object [
    ("version", .string "2.1.0"),
    ("$schema", .string
      ("https://raw.githubusercontent.com/oasis-tcs/sarif-spec/master/Schemata/" ++
        "sarif-schema-2.1.0.json")),
    ("runs", .array [.object [
      ("tool", .object [("driver", driver)]),
      ("results", .array (r.diagnostics.map (result base)))]])]

end ZeroAlloc.Report.Sarif

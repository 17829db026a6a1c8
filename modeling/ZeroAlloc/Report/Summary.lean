import ZeroAlloc.Diagnostic
import ZeroAlloc.Json
set_option autoImplicit false

/-! # The JSON report

All diagnostics and suppressed diagnostics with the facts of the run. What there is none of is left
out: the configuration, the suppressed diagnostics and the reason of a suppression. -/

namespace ZeroAlloc.Report

/-! ## The tool -/

/-- The name of the tool. -/
def toolName : String := "emptycheck"

/-- The version of the tool. -/
def toolVersion : String := "0.1.0"

/-- Where the tool is described. -/
def toolUri : String := "https://github.com/zen-systems/emptycheck"

namespace Summary

/-! ## The report -/

/-- A diagnostic in the report. -/
def diagnostic (d : Diagnostic) : Json :=
  .object [
    ("rule", .string d.ruleId),
    ("severity", .string d.severity.name),
    ("file", .string d.file),
    ("line", .number d.line),
    ("column", .number d.column),
    ("message", .string d.message),
    ("argument", .string d.argument)]

/-- A suppression in the report. -/
def suppression (s : Suppression) : Json :=
  let reason := if s.reason.isEmpty then [] else [("reason", Json.string s.reason)]
  .object <|
    [("rule", .string s.rule)] ++ reason ++
    [("file", .string s.file), ("line", .number s.line), ("type", .string s.scope.name)]

/-- A suppressed diagnostic in the report. -/
def suppressed (s : SuppressedDiagnostic) : Json :=
  .object [("diagnostic", diagnostic s.diagnostic), ("suppression", suppression s.suppression)]

/-- The report on the files under a path. -/
def report (path : String) (config : Option String) (result : DetectionResult) : Json :=
  let configField := match config with
    | some path => [("config", Json.string path)]
    | none => []
  let suppressedField :=
    if result.suppressed.isEmpty then []
    else [("suppressed", Json.array (result.suppressed.map suppressed))]
  .object <|
    [("version", .string toolVersion), ("path", .string path)] ++ configField ++
    [("clean", .bool result.isClean), ("files_scanned", .number result.scanned),
      ("diagnostics", .array (result.diagnostics.map diagnostic))] ++ suppressedField ++
    [("suppressed_count", .number result.suppressed.length)]

end Summary

end ZeroAlloc.Report

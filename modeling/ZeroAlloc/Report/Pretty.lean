import ZeroAlloc.Compilation
import ZeroAlloc.Report.Styled
import ZeroAlloc.Report.Summary
import ZeroAlloc.Text.Quoted
set_option autoImplicit false

/-! # The report for readers

The outcome of a run as text for a terminal. -/

namespace ZeroAlloc.Report.Pretty

/-- The plural ending for a number of things. -/
def plural (n : Nat) : String :=
  if n = 1 then "" else "s"

/-- What was examined, with which configuration. -/
def header (color : Bool) (path : String) (config : Option String) : String :=
  "\n  " ++ Style.boldCyan.apply color toolName ++ " v" ++ toolVersion ++ "\n\n  " ++
    Style.dimmed.apply color "Scanning: " ++ path ++ "\n  " ++
    Style.dimmed.apply color "Config:   " ++ config.getD "(defaults)" ++ "\n\n"

/-- The mark of a run that found nothing. -/
def clean (color : Bool) : String :=
  Style.green.apply color "✓ CLEAN"

/-- The line that sums up a result. -/
def summary (color : Bool) (result : DetectionResult) : String :=
  let mark := if result.isClean then clean color else Style.red.apply color "✗ FOUND"
  let count := result.diagnostics.length
  let suppressed := result.suppressed.length
  "  " ++ mark ++ "  " ++ Style.bold.apply color (toString count) ++ " zero-length allocation" ++
    plural count ++ " in " ++ toString result.scanned ++ " file" ++ plural result.scanned ++
    (if suppressed = 0 then ""
     else "  " ++ Style.dimmed.apply color ("(" ++ toString suppressed ++ " suppressed)")) ++ "\n"

/-- The word in front of a diagnostic. -/
def severityTag (color : Bool) : Severity → String
  | .error => Style.red.apply color "ERROR"
  | .warning => Style.yellow.apply color "WARN "
  | .info => Style.blue.apply color "INFO "

/-- The rule and file of a diagnostic, and its place in the file. -/
def place (color : Bool) (d : Diagnostic) (position : String) : String :=
  Style.dimmed.applyPadded color 8 d.ruleId ++ Style.blue.apply color d.file ++
    Style.dimmed.apply color position ++ "\n"

/-- The line and column of a diagnostic. -/
def position (d : Diagnostic) : String :=
  ":" ++ toString d.line ++ ":" ++ toString d.column

/-- A diagnostic. -/
def diagnostic (color : Bool) (d : Diagnostic) : String :=
  "    " ++ severityTag color d.severity ++ "    " ++ place color d (position d) ++
    "            " ++ d.message ++ "\n\n"

/-- The diagnostics, if there are any. -/
def diagnostics (color : Bool) (ds : List Diagnostic) : String :=
  if ds.isEmpty then ""
  else
    "  " ++ Style.bold.apply color "Diagnostics" ++ " (" ++ toString ds.length ++ "):\n\n" ++
      String.join (ds.map (diagnostic color)) ++ "\n"

/-- A suppressed diagnostic. -/
def suppressedDiagnostic (color : Bool) (s : SuppressedDiagnostic) : String :=
  let position := if s.suppression.scope = .file then ":* (file)" else position s.diagnostic
  "    " ++ place color s.diagnostic position ++
    (if s.suppression.reason.isEmpty then ""
     else
      "            " ++
        Style.dimmed.apply color ("reason: " ++ Text.quoted s.suppression.reason) ++ "\n")

/-- The suppressed diagnostics, if there are any, in detail or as a hint. -/
def suppressed (color showDetails : Bool) (ss : List SuppressedDiagnostic) : String :=
  if ss.isEmpty then ""
  else
    "  " ++ Style.dimmed.apply color "Suppressed" ++ " (" ++ toString ss.length ++ "):\n" ++
      (if showDetails then "\n" ++ String.join (ss.map (suppressedDiagnostic color))
       else
        "    " ++ Style.dimmed.apply color "(use --show-suppressed to see details)" ++ "\n") ++
      "\n"

/-- The report on the files under a path. -/
def report (color : Bool) (path : String) (config : Option String) (result : DetectionResult)
    (showSuppressed : Bool) : String :=
  header color path config ++ summary color result ++ "\n" ++
    diagnostics color result.diagnostics ++ suppressed color showSuppressed result.suppressed

/-- A fixed file with what was done to it. -/
def fix (color : Bool) (f : FileFix) : String :=
  "    " ++ Style.blue.apply color f.path ++ "\n" ++
    String.join (f.edits.map fun e =>
      "            " ++ Style.dimmed.apply color e.message ++ "\n")

/-- The report on fixed files, or on those that would be fixed. -/
def fixReport (color : Bool) (path : String) (fixes : List FileFix) (dryRun : Bool) : String :=
  let changed := fixes.filter (!·.isUnchanged)
  let edits := (changed.flatMap (·.edits)).length
  let verb := if dryRun then "Would rewrite" else "Rewrote"
  header color path none ++
    if changed.isEmpty then "  " ++ clean color ++ "  nothing to fix\n\n"
    else
      "  " ++ verb ++ " " ++ Style.bold.apply color (toString edits) ++ " allocation" ++
        plural edits ++ " in " ++ toString changed.length ++ " file" ++ plural changed.length ++
        "\n\n" ++ String.join (changed.map (fix color)) ++ "\n"

end ZeroAlloc.Report.Pretty

import ZeroAlloc.Command.Basic
import ZeroAlloc.Command.Examination
import ZeroAlloc.Config.Written
import ZeroAlloc.Report.Pretty
import ZeroAlloc.Report.Sarif
import ZeroAlloc.Report.Summary
set_option autoImplicit false

/-! # Running commands

What each command prints, and what it makes of a workspace. -/

namespace ZeroAlloc

/-- What a command leaves behind. -/
structure Outcome where
  status : Nat
  output : String
  errors : String
  workspace : Workspace

namespace Outcome

/-- The outcome of a command that did what it was asked to. -/
def success (w : Workspace) (output : String) : Outcome :=
  ⟨0, output, "", w⟩

/-- The outcome of a command that could not be carried out, and why. -/
def failure (w : Workspace) (message : String) : Outcome :=
  ⟨2, "", "Error: " ++ message ++ "\n", w⟩

end Outcome

/-! ## Reports -/

/-- How a report is written. -/
inductive ReportFormat where
  | pretty
  | json
  | sarif
  deriving DecidableEq

/-- The format with a name. -/
def ReportFormat.ofName? : String → Option ReportFormat
  | "pretty" => some .pretty
  | "json" => some .json
  | "sarif" => some .sarif
  | _ => none

/-- The report on an examination. -/
def Examination.report (e : Examination) (color : Bool) (format : ReportFormat)
    (options : LintOptions) (result : DetectionResult) : String :=
  match format with
  | .pretty => Report.Pretty.report color options.path e.configPath result options.showSuppressed
  | .json => (Report.Summary.report options.path e.configPath result).text ++ "\n"
  | .sarif => (Report.Sarif.report e.place.text result).text ++ "\n"

/-- Report on the allocations in a workspace. The status says whether there are any. -/
def LintOptions.run (options : LintOptions) (color : Bool) (w : Workspace) : Outcome :=
  match ReportFormat.ofName? options.format with
  | none =>
    .failure w ("invalid format " ++ Text.quoted options.format ++
      ", must be 'pretty', 'json', or 'sarif'")
  | some format =>
    match w.examine options.path options.config with
    | .error e => .failure w e.message
    | .ok e =>
      let result := (e.compilation w).result
      if result.scanned = 0 then ⟨0, "", "Warning: no files to scan\n", w⟩
      else ⟨if result.isClean then 0 else 1, e.report color format options result, "", w⟩

/-! ## Fixes -/

/-- A fixed file as it is printed: a line with its path, and its text with a line feed at the
end. -/
def FileFix.preview (fix : FileFix) : String :=
  "// " ++ fix.path ++ "\n" ++ fix.fixed ++
    (if fix.fixed.toList.getLast? == some '\n' then "" else "\n")

/-- The workspace in which a file holds its fixed text. -/
def Workspace.applyFix (w : Workspace) (fix : FileFix) : Workspace :=
  if fix.isUnchanged then w
  else
    { w with files := w.files.map fun (p, content) =>
        if p.text == fix.path then (p, .text fix.fixed) else (p, content) }

/-- Replace the allocations in a workspace, or print what would be written. -/
def FixOptions.run (options : FixOptions) (color : Bool) (w : Workspace) :
    Except FixError Outcome :=
  match w.examine options.path options.config with
  | .error e => .ok (.failure w e.message)
  | .ok e =>
    match (e.compilation w).fixes with
    | .error cause => .error cause
    | .ok fixes =>
      if options.dryRun then
        .ok (.success w (String.join ((fixes.filter (!·.isUnchanged)).map FileFix.preview)))
      else
        .ok (.success (fixes.foldl Workspace.applyFix w)
          (Report.Pretty.fixReport color options.path fixes false))

/-! ## New configurations -/

/-- The configuration to start with, which leaves out what was built. -/
def Config.initial : Config :=
  { Config.standard with excludedPaths := ["**/obj/**", "**/bin/**"] }

/-- What is printed once a configuration has been written. -/
def nextSteps (path : String) : String :=
  "Created " ++ path ++ "\n\nNext steps:\n  1. Edit " ++ path ++
    " to customize the factory or policies\n  2. Run: emptycheck lint . --config " ++ path ++ "\n"

/-- Make the directory that a path lies in, unless it lies where the program runs. -/
def Workspace.ensureParent (w : Workspace) (path : FilePath) : Except FileError Workspace :=
  match path.parts.reverse with
  | [] => .ok w
  | [_, .here] => .ok w
  | _ :: parents => w.ensureDirectories parents

/-- Write the configuration to start with to a path where nothing is. -/
def initConfig (path : String) (w : Workspace) : Outcome :=
  if w.pathExists (.parse path) then
    ⟨2, "", "Error: file already exists: " ++ path ++
      "\nRemove it or use --output to specify a different path\n", w⟩
  else
    match w.ensureParent (.parse path) with
    | .error e => .failure w ("failed to create directory: " ++ e.message)
    | .ok w =>
      match w.writeText (.parse path) Config.initial.written with
      | .error e => .failure w ("failed to write configuration: " ++ e.message)
      | .ok w => .success w (nextSteps path)

/-! ## Commands -/

/-- Carry out a command. -/
def Command.run (command : Command) (color : Bool) (w : Workspace) : Except FixError Outcome :=
  match command with
  | .lint options => .ok (options.run color w)
  | .fix options => options.run color w
  | .init path => .ok (initConfig path w)

end ZeroAlloc

import ZeroAlloc.FilePath
import ZeroAlloc.Replacement
import ZeroAlloc.Suppression
set_option autoImplicit false

/-! # Compilations

Files that are examined together. Whether the factory exists is a matter of all of them: one file
that declares it makes it available to every other. -/

namespace ZeroAlloc

/-- Files that are examined together under one configuration, in the order of their paths. -/
structure Compilation where
  config : Config
  files : List Document

/-- The fixed text of a file. -/
structure FileFix where
  path : String
  edits : List Edit
  fixed : String

/-- Whether the file stays as it is. -/
def FileFix.isUnchanged (fix : FileFix) : Bool :=
  fix.edits.isEmpty

/-- Why the files of a compilation cannot be fixed. -/
structure FixError where
  path : String
  cause : EditError

/-- The text of the error. -/
def FixError.message (e : FixError) : String :=
  e.path ++ ": " ++ e.cause.message

namespace Compilation

/-- The language of the file with a path. -/
def languageOf? (path : String) : Option Language :=
  Language.ofExtension? (((FilePath.parse path).extension?).getD "")

/-- The compilation of sources with their paths. Files in no known language are left out. -/
def ofSources (config : Config) (sources : List (String × String)) : Compilation :=
  let files := sources.filterMap fun (path, source) =>
    (languageOf? path).map fun language => Document.read language path source
  ⟨config, files.mergeSort fun a b => a.path ≤ b.path⟩

/-- Whether the factory exists. -/
def factoryAvailable (c : Compilation) : Bool :=
  c.config.assumeFactoryAvailable || c.files.any (·.declaresFactory c.config.factory)

/-- The choices that decisions depend on. -/
def policy (c : Compilation) : Policy :=
  c.config.policy c.factoryAvailable

/-- The findings in a file. -/
def findings (c : Compilation) (doc : Document) : List Finding :=
  doc.findings c.policy

/-- The report on a finding in a file. -/
def diagnostic (c : Compilation) (doc : Document) (finding : Finding) : Diagnostic :=
  let argument := doc.language.invocation none c.config.factory finding.typeArgument
  let span := doc.siteSpan finding.site
  { ruleId := ZeroAlloc.ruleId
    severity := c.config.severity
    file := doc.path
    line := span.first.line
    column := span.first.column
    endLine := span.last.line
    endColumn := span.last.column
    message := "Avoid unnecessary zero-length array allocations. Use " ++ argument ++ " instead."
    argument
    language := doc.language.id }

/-- The suppressions in a file. -/
def suppressions (doc : Document) : List Suppression :=
  Suppression.parse doc.path doc.source

/-- The outcome of examining one file. -/
def fileResult (c : Compilation) (doc : Document) : DetectionResult :=
  let diagnostics := (c.findings doc).map (c.diagnostic doc)
  { diagnostics := Suppression.active (suppressions doc) diagnostics
    suppressed := Suppression.suppressed (suppressions doc) diagnostics
    scanned := 1 }

/-- The outcome of examining all files. -/
def result (c : Compilation) : DetectionResult :=
  (c.files.map c.fileResult).foldl DetectionResult.merge .empty

/-- The findings in a file that no suppression silences. -/
def activeFindings (c : Compilation) (doc : Document) : List Finding :=
  let suppressions := suppressions doc
  (c.findings doc).filter fun finding =>
    let diagnostic := c.diagnostic doc finding
    !suppressions.any (·.covers diagnostic)

/-- The fixed text of one file. Silenced findings stay. -/
def fileFix (c : Compilation) (doc : Document) : Except FixError FileFix :=
  let edits := doc.edits c.config.factory (c.activeFindings doc)
  match Edit.apply doc.source edits with
  | .ok fixed => .ok ⟨doc.path, edits, fixed⟩
  | .error cause => .error ⟨doc.path, cause⟩

/-- The fixed texts of all files, or the first reason why there are none. -/
def fixes (c : Compilation) : Except FixError (List FileFix) :=
  c.files.mapM c.fileFix

end Compilation

end ZeroAlloc

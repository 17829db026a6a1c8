import ZeroAlloc.Compilation
import ZeroAlloc.Config.Read
import ZeroAlloc.Config.Validation
import ZeroAlloc.Workspace
set_option autoImplicit false

/-! # Examinations

Where a path and a configuration lead in a workspace, and which files are examined there: the file
itself, or the files of known languages below a directory. Hidden directories and those that hold
what was built are passed over, and so are files that hold no text. -/

namespace ZeroAlloc

/-! ## Configurations -/

/-- Why a configuration cannot be taken from a file. -/
inductive ConfigFileError where
  | unreadable (cause : FileError)
  | malformed
  | invalid (cause : ConfigError)
  deriving DecidableEq

/-- The text of the error. -/
def ConfigFileError.message : ConfigFileError → String
  | unreadable cause => cause.message
  | malformed => "malformed configuration"
  | invalid cause => cause.message

/-- The configuration in the file that a path leads to. -/
def Workspace.readConfig (w : Workspace) (path : String) : Except ConfigFileError Config :=
  match w.readText (.parse path) with
  | .error cause => .error (.unreadable cause)
  | .ok text =>
    match Config.read? text with
    | none => .error .malformed
    | some config =>
      match config.error? with
      | some cause => .error (.invalid cause)
      | none => .ok config

/-- The names of configurations that the user need not name. -/
def configNames : List String :=
  ["emptycheck.yaml", ".emptycheck.yaml"]

/-- The path of the configuration in a directory, if it has one. -/
def Workspace.configIn? (w : Workspace) (directory : Place) : Option String :=
  ((configNames.map fun name => directory ++ [name]).find? w.isFile).map Place.text

/-! ## What is examined -/

/-- What is to be examined, and under which configuration. -/
structure Examination where
  place : Place
  config : Config
  /-- The path of the configuration, unless it is the standard one. -/
  configPath : Option String

/-- Why nothing can be examined. -/
inductive ExaminationError where
  | inaccessible (path : String) (cause : FileError)
  | configuration (path : String) (cause : ConfigFileError)
  deriving DecidableEq

/-- The text of the error. -/
def ExaminationError.message : ExaminationError → String
  | inaccessible path cause =>
    "cannot access path " ++ Text.quotedPath path ++ ": " ++ cause.message
  | configuration path cause => "invalid configuration: " ++ path ++ ": " ++ cause.message

namespace Workspace

/-- The examination of what is at a path, under the configuration that is named or found beside
it. -/
def examine (w : Workspace) (path : String) (config : Option String) :
    Except ExaminationError Examination :=
  match w.resolve (.parse path) with
  | .error cause => .error (.inaccessible path cause)
  | .ok place =>
    match config.or (w.configIn? (if w.isDirectory place then place else place.dropLast)) with
    | none => .ok ⟨place, .standard, none⟩
    | some configPath =>
      match w.readConfig configPath with
      | .ok config => .ok ⟨place, config, some configPath⟩
      | .error cause => .error (.configuration configPath cause)

/-- Whether what is below a directory of the name is passed over. -/
def isPassedOver (name : String) : Bool :=
  name.toList.head? == some '.' || name == "bin" || name == "obj"

end Workspace

namespace Examination

/-- Whether a file below the examined directory is examined, by the names that lead to it from
there. -/
def covers (e : Examination) (names : List String) : Bool :=
  !names.dropLast.any Workspace.isPassedOver &&
    (Compilation.languageOf? (String.intercalate "/" names)).isSome &&
    !e.config.excludes (String.intercalate "/" names)

/-- Whether the file at a place is examined. The examined file itself is, whatever its name. -/
def includes (e : Examination) (p : Place) : Bool :=
  p == e.place || (e.place.isPrefixOf p && e.covers (p.drop e.place.length))

/-- The paths and texts of the files that are examined. -/
def sources (e : Examination) (w : Workspace) : List (String × String) :=
  w.files.filterMap fun (p, content) =>
    if e.includes p then content.text?.map fun text => (p.text, text) else none

/-- The files that are examined, as a compilation. -/
def compilation (e : Examination) (w : Workspace) : Compilation :=
  .ofSources e.config (e.sources w)

end Examination

end ZeroAlloc

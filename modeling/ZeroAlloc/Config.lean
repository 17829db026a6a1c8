import ZeroAlloc.Diagnostic
import ZeroAlloc.Factory
set_option autoImplicit false

/-! # Configuration

What a user can choose: the factory, how to treat files and sites, and which paths to leave out. -/

namespace ZeroAlloc

/-- What becomes of arrays that no source text allocates. -/
inductive CompilerGeneratedPolicy where
  | skip
  | flag
  deriving DecidableEq

namespace CompilerGeneratedPolicy

/-- The word for the policy. -/
def name : CompilerGeneratedPolicy → String
  | skip => "skip"
  | flag => "flag"

/-- The policy that a word names. -/
def ofName? (word : String) : Option CompilerGeneratedPolicy :=
  [skip, flag].find? (·.name == word)

end CompilerGeneratedPolicy

/-- The choices of a user. -/
structure Config where
  version : String
  factory : Factory
  /-- Whether the factory exists even if no file declares it. -/
  assumeFactoryAvailable : Bool
  /-- Whether files with errors are left alone. -/
  tolerateCompileErrors : Bool
  compilerGenerated : CompilerGeneratedPolicy
  severity : Severity
  /-- Patterns for the paths to leave out. -/
  excludedPaths : List String
  deriving DecidableEq

/-- The configuration in which nothing is said. -/
def Config.unset : Config where
  version := ""
  factory := .standard
  assumeFactoryAvailable := true
  tolerateCompileErrors := false
  compilerGenerated := .skip
  severity := .warning
  excludedPaths := []

/-- The configuration of a user who has none. -/
def Config.standard : Config := { Config.unset with version := "1" }

end ZeroAlloc

import ZeroAlloc.Config
import ZeroAlloc.Glob.Parser
import ZeroAlloc.Text.CharClass
import ZeroAlloc.Text.Quoted
set_option autoImplicit false

/-! # Valid configurations

A configuration is of use only if its factory can be written as code and its patterns can be
read. -/

namespace ZeroAlloc

/-! ## Identifiers -/

/-- Whether a character can start an identifier. -/
def startsIdentifier (c : Char) : Bool :=
  Text.isAlphabetic c || c == '_'

/-- Whether a character can stand within an identifier. -/
def continuesIdentifier (c : Char) : Bool :=
  Text.isAlphanumeric c || c == '_'

/-- Whether a text is an identifier. -/
def isIdentifier : List Char → Bool
  | [] => false
  | c :: cs => startsIdentifier c && cs.all continuesIdentifier

/-- The parts of a text between its points. -/
def dottedParts (part : List Char) : List Char → List (List Char)
  | [] => [part.reverse]
  | '.' :: cs => part.reverse :: dottedParts [] cs
  | c :: cs => dottedParts (c :: part) cs

/-- Whether a text consists of identifiers between points. -/
def isDottedIdentifier (cs : List Char) : Bool :=
  (dottedParts [] cs).all isIdentifier

/-! ## Factories -/

/-- A part of the name of a factory. -/
inductive FactoryField where
  | namespaceName
  | typeName
  | method
  deriving DecidableEq

namespace FactoryField

/-- The key of the field in a configuration. -/
def key : FactoryField → String
  | namespaceName => "namespace"
  | typeName => "type_name"
  | method => "method"

/-- The value of the field. -/
def value (factory : Factory) : FactoryField → String
  | namespaceName => factory.namespaceName
  | typeName => factory.typeName
  | method => factory.method

/-- Whether the field can have a value. Only a namespace may have points. -/
def accepts (field : FactoryField) (value : String) : Bool :=
  match field with
  | namespaceName => isDottedIdentifier value.toList
  | typeName => isIdentifier value.toList
  | method => isIdentifier value.toList

end FactoryField

/-! ## Configurations -/

/-- What makes a configuration useless. -/
inductive ConfigError where
  | invalidFactory (field : FactoryField) (value : String)
  | invalidGlob (pattern : String) (cause : GlobError)
  deriving DecidableEq

/-- The text of the error. -/
def ConfigError.message : ConfigError → String
  | invalidFactory field value =>
    "invalid factory " ++ field.key ++ " " ++ Text.quoted value ++ ": must be a dotted identifier"
  | invalidGlob pattern cause =>
    "invalid excluded_paths pattern " ++ Text.quoted pattern ++ ": " ++ cause.message pattern

namespace Config

/-- The error of a field of the factory. -/
def fieldError? (factory : Factory) (field : FactoryField) : Option ConfigError :=
  if field.accepts (field.value factory) then none
  else some (.invalidFactory field (field.value factory))

/-- The error of a pattern. -/
def patternError? (pattern : String) : Option ConfigError :=
  match Glob.parse pattern with
  | .ok _ => none
  | .error cause => some (.invalidGlob pattern cause)

/-- The first error of a configuration, if it has one: the factory comes before the patterns. -/
def error? (config : Config) : Option ConfigError :=
  ([.namespaceName, .typeName, .method].findSome? (fieldError? config.factory)).or
    (config.excludedPaths.findSome? patternError?)

/-- Whether a pattern can be read and matches a path. -/
def patternMatches (path pattern : String) : Bool :=
  match Glob.parse pattern with
  | .ok glob => glob.isMatch path
  | .error _ => false

/-- Whether a path is to be left out. -/
def excludes (config : Config) (path : String) : Bool :=
  config.excludedPaths.any (patternMatches path)

end Config

end ZeroAlloc

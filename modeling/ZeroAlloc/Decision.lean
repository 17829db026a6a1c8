import ZeroAlloc.Config
import ZeroAlloc.Document
set_option autoImplicit false

/-! # Decisions on sites

Each array creation site is flagged or passed over. Only the length of the allocated level matters:
the levels below it are not allocated when it is empty. -/

namespace ZeroAlloc

/-- What is known about the length of the allocated level. -/
inductive Evidence where
  | constantZero
  | constantNonZero
  | unknown
  | emptyInitializer
  deriving DecidableEq

namespace Evidence

/-- Whether the length is known to be zero. -/
def isZero : Evidence → Bool
  | constantZero => true
  | emptyInitializer => true
  | _ => false

/-- The evidence in words. -/
def text : Evidence → String
  | constantZero => "constant zero"
  | constantNonZero => "constant non-zero"
  | unknown => "unknown"
  | emptyInitializer => "empty initializer"

end Evidence

/-- Why a site is passed over. -/
inductive SkipReason where
  /-- It is in an attribute argument list. -/
  | attributeArgument
  /-- The compiler makes the array, and the policy is to leave such sites alone. -/
  | compilerGenerated
  /-- It has sizes on an inner level. -/
  | malformedSyntax
  /-- It has more than one dimension. -/
  | multiDimensional
  /-- Its elements are pointers, which no type argument can be. -/
  | pointerElement
  | knownNonZero
  | unknownLength
  /-- The element type cannot be told from the source. -/
  | unresolvedType
  deriving DecidableEq

/-- The verdict on a site. -/
inductive Decision where
  | flag
  | skip (reason : SkipReason)
  deriving DecidableEq

/-- Whether the site is flagged. -/
def Decision.isFlag (d : Decision) : Bool :=
  d = .flag

/-- The choices that decisions depend on. -/
structure Policy where
  /-- Whether the factory exists at all. -/
  factoryAvailable : Bool
  /-- Whether files with errors are left alone. -/
  tolerateCompileErrors : Bool
  compilerGenerated : CompilerGeneratedPolicy

/-- The choices of a configuration. -/
def Config.policy (config : Config) (factoryAvailable : Bool) : Policy :=
  ⟨factoryAvailable, config.tolerateCompileErrors, config.compilerGenerated⟩

/-- What is known about the length of the allocated level. A size, where one is given, counts before
the initializer list. -/
def Site.evidence (s : Site) (language : Language) (constants : Constants) : Evidence :=
  match s.allocated.sizes with
  | some size :: _ =>
    match language.length? constants size with
    | some 0 => .constantZero
    | some _ => .constantNonZero
    | none => .unknown
  | _ =>
    match s.initializer with
    | some i => if i.contents.isEmpty then .emptyInitializer else .constantNonZero
    | none => .unknown

/-- The verdict on a site. -/
def Site.decision (s : Site) (language : Language) (constants : Constants) (policy : Policy) :
    Decision :=
  if s.inAttribute then .skip .attributeArgument
  else if s.origin.isCompilerGenerated && policy.compilerGenerated = .skip then
    .skip .compilerGenerated
  else if s.malformed then .skip .malformedSyntax
  else if s.allocated.rank > 1 then .skip .multiDimensional
  else if s.element.isPointer then .skip .pointerElement
  else
    match s.evidence language constants with
    | .constantNonZero => .skip .knownNonZero
    | .unknown => .skip .unknownLength
    | _ => if s.element.resolved then .flag else .skip .unresolvedType

/-! ## Findings -/

/-- A flagged site. -/
structure Finding where
  /-- Index of the site in its document. -/
  index : Nat
  site : Site
  evidence : Evidence
  /-- The element type of the array, as a type argument. -/
  typeArgument : String

/-- The findings in a document, in order of position. There are none if the factory does not exist,
or if the document has errors and such documents are left alone. -/
def Document.findings (doc : Document) (policy : Policy) : List Finding :=
  if policy.factoryAvailable && !(policy.tolerateCompileErrors && doc.hasErrors) then
    doc.sites.zipIdx.filterMap fun (s, index) =>
      if (s.decision doc.language doc.constants policy).isFlag then
        (doc.language.typeArgument? s).map fun typeArgument =>
          ⟨index, s, s.evidence doc.language doc.constants, typeArgument⟩
      else none
  else []

end ZeroAlloc

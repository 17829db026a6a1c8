import ZeroAlloc.CSharp.Creation
import ZeroAlloc.CSharp.Declaration
import ZeroAlloc.CSharp.Size
import ZeroAlloc.Factory
import ZeroAlloc.Lexis.CSharp
import ZeroAlloc.Lexis.VisualBasic
import ZeroAlloc.VisualBasic.Declaration
import ZeroAlloc.VisualBasic.Size
set_option autoImplicit false

/-! # Languages

The languages whose programs are examined. All that differs between them is reached from here: how a
text is read, what a size expression is worth, and how types and calls are written. -/

namespace ZeroAlloc

/-- A language whose programs are examined. -/
inductive Language where
  | csharp
  | visualBasic
  deriving DecidableEq

namespace Language

/-- All languages, in the order in which they are looked up. -/
def all : List Language := [csharp, visualBasic]

/-- The identifier of the language in reports. -/
def id : Language → String
  | csharp => "csharp"
  | visualBasic => "vb"

/-- The extensions of the files of the language, without the point. -/
def extensions : Language → List String
  | csharp => ["cs"]
  | visualBasic => ["vb"]

/-- The language of files with an extension, in any case. -/
def ofExtension? (extension : String) : Option Language :=
  all.find? fun l => l.extensions.any (Text.equalIgnoringCase · extension)

/-- The language with an identifier. -/
def ofId? (id : String) : Option Language :=
  all.find? (·.id == id)

/-! ## Reading -/

/-- The lexical rules. -/
def rules : Language → List Lexis.Rule
  | csharp => Lexis.CSharp.rules
  | visualBasic => Lexis.VisualBasic.rules

/-- The array creation sites in the lexemes of a file. -/
def sites : Language → List Lexeme → List Site
  | csharp => CSharp.sites
  | visualBasic => VisualBasic.sites

/-- The imports in the lexemes of a file. -/
def imports : Language → List Lexeme → List Import
  | csharp => CSharp.imports
  | visualBasic => VisualBasic.imports

/-- The constants in the lexemes of a file. -/
def constants : Language → List Lexeme → Constants
  | csharp => CSharp.constants
  | visualBasic => VisualBasic.constants

/-- The generic methods in the lexemes of a file. -/
def genericMethods : Language → List Lexeme → List GenericMethod
  | csharp => CSharp.genericMethods
  | visualBasic => VisualBasic.genericMethods

/-! ## Meaning -/

/-- The dialect of size expressions. -/
def dialect : Language → Dialect
  | csharp => CSharp.dialect
  | visualBasic => VisualBasic.dialect

/-- The length of an array dimension whose size is written so. -/
def length? : Language → Constants → List Lexeme → Option Int
  | csharp => CSharp.length?
  | visualBasic => VisualBasic.length?

/-- Whether two names are the same in the language. -/
def namesEqual : Language → String → String → Bool
  | csharp, a, b => a == b
  | visualBasic, a, b => Text.equalIgnoringCase a b

/-! ## Writing -/

/-- An array level without sizes. -/
def levelText (language : Language) (rank : Nat) : String :=
  let commas := String.ofList (List.replicate (rank - 1) ',')
  match language with
  | csharp => "[" ++ commas ++ "]"
  | visualBasic => "(" ++ commas ++ ")"

/-- A call of the factory for a type argument, behind a qualifier if there is one. -/
def invocation (language : Language) (qualifier : Option String) (factory : Factory)
    (typeArgument : String) : String :=
  let method := factory.typeName ++ "." ++ factory.method
  let qualified :=
    match qualifier with
    | some q => q ++ "." ++ method
    | none => method
  match language with
  | csharp => qualified ++ "<" ++ typeArgument ++ ">()"
  | visualBasic => qualified ++ "(Of " ++ typeArgument ++ ")()"

/-- The element type of the array that a site allocates, as a type argument: the innermost type and
all levels below the allocated one. -/
def typeArgument? (language : Language) (s : Site) : Option String :=
  s.element.text?.map fun text =>
    text ++ String.join (s.inner.map fun level => language.levelText level.rank)

end Language

end ZeroAlloc

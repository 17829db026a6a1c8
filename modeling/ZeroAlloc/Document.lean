import ZeroAlloc.Language
import ZeroAlloc.Text.Position
set_option autoImplicit false

/-! # Documents

A source file with its tokens and all that is recognised in it. Recognition sees lexemes only; here
their indices are turned into places of the text. -/

namespace ZeroAlloc

/-- A source file as read in its language. -/
structure Document where
  path : String
  language : Language
  source : String
  tokens : Array Token
  /-- The array creation sites, in order of position. -/
  sites : List Site
  imports : List Import
  constants : Constants
  genericMethods : List GenericMethod

namespace Document

/-- Read a source text. Every text can be read; malformed pieces are error tokens. -/
def read (language : Language) (path source : String) : Document :=
  let tokens := Lexis.tokenize language.rules source
  let ls := lexemes tokens
  { path
    language
    source
    tokens := tokens.toArray
    sites := language.sites ls
    imports := language.imports ls
    constants := language.constants ls
    genericMethods := language.genericMethods ls }

/-- Whether anything in the text is malformed. -/
def hasErrors (doc : Document) : Bool :=
  doc.tokens.any fun t => t.isError

/-- The offset at which the token with an index starts. -/
def tokenStart (doc : Document) (index : Nat) : Nat :=
  (doc.tokens[index]?.map fun t => t.start).getD 0

/-- The offset behind the token with an index. -/
def tokenStop (doc : Document) (index : Nat) : Nat :=
  (doc.tokens[index]?.map Token.stop).getD 0

/-- The span of a range of bytes. -/
def byteSpan (doc : Document) (start stop : Nat) : Text.Span :=
  .of doc.source.toList start stop

/-- The span of the tokens from one index through another. -/
def tokenSpan (doc : Document) (first last : Nat) : Text.Span :=
  doc.byteSpan (doc.tokenStart first) (doc.tokenStop last)

/-- The text under a span. -/
def textUnder (doc : Document) (span : Text.Span) : String :=
  String.ofList (Text.sliceBytes doc.source.toList span.start span.stop)

/-! ## Places of sites -/

/-- The span of a site. -/
def siteSpan (doc : Document) (s : Site) : Text.Span :=
  doc.tokenSpan s.first s.last

/-- Where a call takes a further argument: at its closing bracket. -/
def insertionOffset (doc : Document) (s : Site) : Nat :=
  doc.tokenStart s.last

/-- The span of the initializer list of a site. That of a call with an empty parameter array is
empty. -/
def initializerSpan (doc : Document) (s : Site) (initializer : Initializer) : Text.Span :=
  match s.origin with
  | .paramArray _ => doc.byteSpan (doc.tokenStart initializer.opening) (doc.insertionOffset s)
  | _ => doc.tokenSpan initializer.opening s.last

/-! ## Names in scope -/

/-- Whether the file imports the namespace under its own name. -/
def importsNamespace (doc : Document) (name : String) : Bool :=
  doc.imports.any fun i => i.aliasName.isNone && doc.language.namesEqual i.path name

/-- Whether the file itself declares the factory. -/
def declaresFactory (doc : Document) (factory : Factory) : Bool :=
  let equal := doc.language.namesEqual
  doc.genericMethods.any fun m =>
    equal m.namespaceName factory.namespaceName && equal m.typeName factory.typeName &&
      equal m.method factory.method

end Document

end ZeroAlloc

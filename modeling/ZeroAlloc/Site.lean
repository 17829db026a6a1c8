import ZeroAlloc.Bracket
set_option autoImplicit false

/-! # Array creation sites

What a front end finds in the lexemes of a file: places where an array is allocated, imports and
generic method declarations. All places are indices of lexemes. -/

namespace ZeroAlloc

/-! ## Array types -/

/-- One level of an array type, `[,]` or `(,)`: one entry for each dimension, none where the size is
left out. -/
structure ArrayLevel where
  sizes : List (Option (List Lexeme))
  deriving DecidableEq

namespace ArrayLevel

/-- The number of dimensions. -/
def rank (level : ArrayLevel) : Nat :=
  level.sizes.length

/-- Whether any dimension has a size. -/
def hasSizes (level : ArrayLevel) : Bool :=
  level.sizes.any Option.isSome

/-- The level that a bracketed list of dimensions stands for. -/
def ofContents (inside : List Lexeme) : ArrayLevel :=
  ⟨(splitCommas 0 inside).map fun piece =>
    match withoutNewlines piece with
    | [] => none
    | size => some size⟩

end ArrayLevel

/-- The levels that a row of bracketed lists starts with, and what follows them. A list for which
`isLevel` fails ends the levels; a list that is left open makes the whole type unreadable. -/
def arrayLevels (b : BracketPair) (isLevel : List Lexeme → Bool) (ls : List Lexeme) :
    Option (List ArrayLevel × List Lexeme) :=
  if ls.head?.any (·.isPunct b.opening) && isLevel ls then
    match _h : b.group? ls with
    | none => none
    | some (inside, rest) =>
      (arrayLevels b isLevel rest).map fun (levels, rest) =>
        (ArrayLevel.ofContents inside :: levels, rest)
  else some ([], ls)
termination_by ls.length
decreasing_by exact BracketPair.length_lt_of_group _h

/-- The innermost type of an array, which is no array itself. -/
structure ElementType where
  /-- The lexemes that spell the type. -/
  parts : List Lexeme
  isPointer : Bool
  /-- Whether the source tells what the type is. -/
  resolved : Bool
  deriving DecidableEq

namespace ElementType

/-- The type that the lexemes spell. -/
def ofParts (parts : List Lexeme) (isPointer : Bool) : ElementType :=
  ⟨parts, isPointer, !parts.isEmpty && !parts.any Lexeme.isError⟩

/-- A type that is left to inference. -/
def inferred : ElementType :=
  ⟨[], false, false⟩

/-- The type as read next to the given lexemes: unresolved if one of them is malformed. -/
def readWith (t : ElementType) (ls : List Lexeme) : ElementType :=
  if ls.any Lexeme.isError then { t with resolved := false } else t

/-- Whether two neighbouring lexemes need a space between them. -/
def spaced (l next : Lexeme) : Bool :=
  let isWord (l : Lexeme) := l.kind = .ident || l.kind = .number
  (isWord l && isWord next) || l.isPunct ","

/-- The source text of a row of lexemes, packed as types are written. -/
def spell : List Lexeme → String
  | [] => ""
  | [l] => l.text
  | l :: next :: ls => l.text ++ (if spaced l next then " " else "") ++ spell (next :: ls)

/-- The source text of the type, if it can be a type argument. -/
def text? (t : ElementType) : Option String :=
  if t.isPointer || !t.resolved then none else some (spell t.parts)

end ElementType

/-! ## Sites -/

/-- How an allocation appears in the source. -/
inductive Origin where
  /-- An array creation expression. -/
  | explicit
  /-- An initializer list on a declared array. -/
  | implicitInitializer
  /-- A call that passes nothing for a parameter array, so that the compiler makes an empty one. The
  flag tells whether it passes other arguments, from which a further one is separated. -/
  | paramArray (needsSeparator : Bool)
  deriving DecidableEq

/-- Whether no allocation is written in the source. -/
def Origin.isCompilerGenerated : Origin → Bool
  | explicit => false
  | implicitInitializer => false
  | paramArray _ => true

/-- An initializer list, which ends with its site. -/
structure Initializer where
  /-- Index of the opening bracket. -/
  opening : Nat
  contents : List Lexeme
  deriving DecidableEq

/-- One array allocation. -/
structure Site where
  /-- Index of the first lexeme of the creation expression or call. -/
  first : Nat
  /-- Index of its last lexeme. -/
  last : Nat
  origin : Origin
  /-- Whether the site is in the argument list of an attribute, where only constants are legal. -/
  inAttribute : Bool
  element : ElementType
  /-- The level that is allocated. -/
  allocated : ArrayLevel
  /-- The levels below it, which belong to the element type of the new array. -/
  inner : List ArrayLevel
  /-- The initializer list. A call with an empty parameter array counts as having an empty one, at
  its closing bracket. -/
  initializer : Option Initializer
  /-- Whether sizes are given on an inner level, which neither language allows. -/
  malformed : Bool
  deriving DecidableEq

namespace Site

/-- All levels, the allocated one first. -/
def levels (s : Site) : List ArrayLevel :=
  s.allocated :: s.inner

/-- The site with all its places moved up. -/
def shift (n : Nat) (s : Site) : Site :=
  { s with
    first := s.first + n
    last := s.last + n
    initializer := s.initializer.map fun i => { i with opening := i.opening + n } }

/-- The order of sites in a file. -/
def comesBefore (s other : Site) : Bool :=
  s.first < other.first || (s.first == other.first && s.last ≤ other.last)

/-- The site, marked if it lies in one of the attribute sections, which are pairs of lexeme
indices. -/
def markAttribute (sections : List (Nat × Nat)) (s : Site) : Site :=
  if sections.any fun (first, last) => first ≤ s.first && s.last ≤ last then
    { s with inAttribute := true }
  else s

end Site

/-- A parameter array that a method of the file declares. -/
structure ParamArray where
  /-- Name of the method. -/
  method : String
  /-- Number of parameters before the array. -/
  fixed : Nat
  element : ElementType
  allocated : ArrayLevel
  inner : List ArrayLevel

/-- The site of a call that passes nothing for the parameter array. The call starts the row;
`inside` is its argument list. -/
def ParamArray.callSite (p : ParamArray) (inside : List Lexeme) : Site where
  first := 0
  last := inside.length + 2
  origin := .paramArray (0 < p.fixed)
  inAttribute := false
  element := p.element
  allocated := p.allocated
  inner := p.inner
  initializer := some ⟨inside.length + 2, []⟩
  malformed := false

/-! ## Declarations -/

/-- An import directive. -/
structure Import where
  /-- The imported namespace. -/
  path : String
  /-- The name that the directive gives to it, if any. -/
  aliasName : Option String
  first : Nat
  last : Nat
  deriving DecidableEq

/-- The name that an import gives to a namespace, if any, and what is imported. -/
def splitAlias (ls : List Lexeme) : Option String × List Lexeme :=
  match ls with
  | name :: mark :: rest =>
    if name.isIdent && mark.isPunct "=" then (some name.text, rest) else (none, ls)
  | _ => (none, ls)

theorem length_splitAlias_le (ls : List Lexeme) : (splitAlias ls).2.length ≤ ls.length := by
  unfold splitAlias
  split
  · split <;> simp
    omega
  · simp

/-- A generic method with the type and namespace that declare it. -/
structure GenericMethod where
  namespaceName : String
  typeName : String
  method : String
  deriving DecidableEq

/-- The text of a row of lexemes without blanks, as in a dotted name. -/
def joined (ls : List Lexeme) : String :=
  String.join (ls.map Lexeme.text)

end ZeroAlloc

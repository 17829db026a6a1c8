set_option autoImplicit false

/-! # File paths

A path is a text of pieces between slashes; what it means is a row of components. Repeated slashes,
slashes at the end and pieces `.` are no components, except that a path may start with `.`; a piece
`..` is one. Paths are compared by their components. -/

namespace ZeroAlloc

/-- A component of a path. -/
inductive PathPart where
  /-- The slash that an absolute path starts with. -/
  | root
  /-- The directory itself. -/
  | here
  /-- The directory above. -/
  | above
  | name (text : String)
  deriving DecidableEq

/-- A path, by the pieces between its slashes. -/
structure FilePath where
  pieces : List (List Char)
  deriving DecidableEq

namespace FilePath

/-! ## Components -/

/-- The pieces of a text between slashes. -/
def splitSlashes (piece : List Char) : List Char → List (List Char)
  | [] => [piece.reverse]
  | '/' :: cs => piece.reverse :: splitSlashes [] cs
  | c :: cs => splitSlashes (c :: piece) cs

/-- The path that a text spells. -/
def parse (text : String) : FilePath :=
  ⟨splitSlashes [] text.toList⟩

/-- The text of a path. -/
def text (p : FilePath) : String :=
  String.ofList (['/'].intercalate p.pieces)

/-- The component that a piece stands for, if any. -/
def part? (piece : List Char) : Option PathPart :=
  if piece.isEmpty || piece == ['.'] then none
  else if piece == ['.', '.'] then some .above
  else some (.name (String.ofList piece))

/-- The component that the first piece of a path stands for, if any. An empty one with a slash
behind it is the root. -/
def firstPart? (pieces : List (List Char)) : Option PathPart :=
  match pieces with
  | [] :: _ :: _ => some .root
  | ['.'] :: _ => some .here
  | piece :: _ => part? piece
  | [] => none

/-- The components of a path. -/
def parts (p : FilePath) : List PathPart :=
  (firstPart? p.pieces).toList ++ p.pieces.tail.filterMap part?

/-- Whether two paths have the same components. -/
def same (p q : FilePath) : Bool :=
  p.parts == q.parts

/-- The piece that spells a component. -/
def pieceOf : PathPart → List Char
  | .root => []
  | .here => ['.']
  | .above => ['.', '.']
  | .name text => text.toList

/-- The path with given components. -/
def ofParts (parts : List PathPart) : FilePath :=
  match parts with
  | [] => ⟨[[]]⟩
  | [.root] => ⟨[[], []]⟩
  | parts => ⟨parts.map pieceOf⟩

/-! ## Names -/

/-- The last component, if it is a name. -/
def fileName? (p : FilePath) : Option String :=
  match p.parts.getLast? with
  | some (.name text) => some text
  | _ => none

/-- What follows the last point of a file name that does not start with its only point. -/
def nameExtension? (fileName : List Char) : Option (List Char) :=
  let reversed := fileName.reverse
  match reversed.dropWhile (· ≠ '.') with
  | [] => none
  | [_] => none
  | _ => some (reversed.takeWhile (· ≠ '.')).reverse

/-- What follows the last point of the file name. -/
def extension? (p : FilePath) : Option String :=
  p.fileName?.bind fun name => (nameExtension? name.toList).map String.ofList

/-! ## Relative paths -/

/-- Whether a piece is no component. -/
def isIdle (piece : List Char) : Bool :=
  (part? piece).isNone

/-- The pieces without idle ones at the two ends. -/
def trimIdle (pieces : List (List Char)) : List (List Char) :=
  ((pieces.dropWhile isIdle).reverse.dropWhile isIdle).reverse

/-- The pieces behind the first `count` components of pieces that start no path. -/
def dropParts : (count : Nat) → List (List Char) → List (List Char)
  | 0, pieces => pieces
  | _ + 1, [] => []
  | count + 1, piece :: pieces =>
    if isIdle piece then dropParts (count + 1) pieces else dropParts count pieces

/-- What is left of a path below a base: the text behind the components of the base. -/
def below? (base p : FilePath) : Option FilePath :=
  if base.parts.isPrefixOf p.parts then
    match base.parts.length with
    | 0 => some p
    | count + 1 => some ⟨trimIdle (dropParts count p.pieces.tail)⟩
  else none

end FilePath

end ZeroAlloc

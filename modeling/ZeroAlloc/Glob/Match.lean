set_option autoImplicit false

/-! # Glob patterns

Patterns for paths. A star stands for any text, also across slashes, and a question mark for one
byte; two stars between slashes stand for any number of directories. Braces hold alternatives,
square brackets sets of characters, and a backslash takes the next character as it is.

A pattern matches the bytes of a path. Each piece is matched together with what has to follow it: a
piece hands every rest that it can leave to the test of the pieces behind it. -/

namespace ZeroAlloc

/-- A piece of a glob pattern. -/
inductive GlobPiece where
  | literal (c : Char)
  /-- One byte. -/
  | anyByte
  /-- Any text. -/
  | anyText
  /-- Any directories at the start of a path. -/
  | leadingDirectories
  /-- A slash and anything behind it. -/
  | everythingBelow
  /-- A slash, or directories between two slashes. -/
  | innerDirectories
  /-- One byte of the characters in the ranges, or one of the other bytes. -/
  | oneOf (negated : Bool) (ranges : List (Char × Char))
  /-- One of the branches. -/
  | alternatives (branches : List (List GlobPiece))

/-- Why a text is no pattern. -/
inductive GlobError where
  | unclosedClass
  | invalidRange (low high : Char)
  | unopenedAlternates
  | unclosedAlternates
  | danglingEscape
  deriving DecidableEq

/-- What is wrong, in words. -/
def GlobError.text : GlobError → String
  | unclosedClass => "unclosed character class; missing ']'"
  | invalidRange low high =>
    "invalid range; '" ++ low.toString ++ "' > '" ++ high.toString ++ "'"
  | unopenedAlternates =>
    "unopened alternate group; missing '\x7b' (maybe escape '\x7d' with '[\x7d]'?)"
  | unclosedAlternates =>
    "unclosed alternate group; missing '\x7d' (maybe escape '\x7b' with '[\x7b]'?)"
  | danglingEscape => "dangling '\\'"

/-- The text of the error in a pattern. -/
def GlobError.message (pattern : String) (e : GlobError) : String :=
  "error parsing glob '" ++ pattern ++ "': " ++ e.text

namespace GlobPiece

/-- A test on the rest of a path. -/
abbrev Continuation := List UInt8 → Bool

/-- The byte of a slash. -/
def slash : UInt8 := 0x2F

/-- Whether the test holds behind any number of bytes. -/
def skipAny (next : Continuation) : List UInt8 → Bool
  | [] => next []
  | b :: bs => next (b :: bs) || skipAny next bs

/-- Whether the test holds behind one of the slashes. -/
def skipThroughSlash (next : Continuation) : List UInt8 → Bool
  | [] => false
  | b :: bs => (b == slash && next bs) || skipThroughSlash next bs

/-- Whether the test holds behind a slash that comes first. -/
def afterSlash (next : Continuation) : List UInt8 → Bool
  | [] => false
  | b :: bs => b == slash && next bs

/-- Whether the test holds behind one byte that satisfies `p`. -/
def oneByte (p : UInt8 → Bool) (next : Continuation) : List UInt8 → Bool
  | [] => false
  | b :: bs => p b && next bs

/-- Whether the test holds behind the given bytes. -/
def afterBytes (next : Continuation) : (expected : List UInt8) → List UInt8 → Bool
  | [], bs => next bs
  | _ :: _, [] => false
  | e :: expected, b :: bs => b == e && afterBytes next expected bs

/-- The bytes of a character. -/
def bytes (c : Char) : List UInt8 :=
  c.toString.toUTF8.toList

/-- The ranges of bytes that a range of characters stands for. A character of several bytes stands
for each of them; between two characters the range extends from the last byte of the one to the
first byte of the other. -/
def byteRanges (range : Char × Char) : List (UInt8 × UInt8) :=
  let low := bytes range.1
  let high := bytes range.2
  if range.1 = range.2 then low.map fun b => (b, b)
  else
    low.dropLast.map (fun b => (b, b)) ++ (low.getLast?.toList.zip high.head?.toList) ++
      high.tail.map fun b => (b, b)

/-- Whether a byte belongs to a set of characters. -/
def classHolds (negated : Bool) (ranges : List (Char × Char)) (b : UInt8) : Bool :=
  let within := (ranges.flatMap byteRanges).any fun (low, high) => low ≤ b && b ≤ high
  within != negated

mutual

/-- Whether nothing is left of a piece, which then stands for the empty text. -/
def isVoid : GlobPiece → Bool
  | alternatives branches => allVoid branches
  | _ => false

/-- Whether nothing is left of any piece. -/
def piecesVoid : List GlobPiece → Bool
  | [] => true
  | piece :: pieces => piece.isVoid && piecesVoid pieces

/-- Whether nothing is left of any branch. -/
def allVoid : List (List GlobPiece) → Bool
  | [] => true
  | branch :: branches => piecesVoid branch && allVoid branches

end

mutual

/-- Whether the piece matches the start of a path and the test holds behind it. A branch of which
nothing is left is no alternative, unless that is so for all of them. -/
def holds (next : Continuation) : GlobPiece → List UInt8 → Bool
  | literal c, bs => afterBytes next (bytes c) bs
  | anyByte, bs => oneByte (fun _ => true) next bs
  | anyText, bs => skipAny next bs
  | leadingDirectories, bs => next bs || afterSlash next bs || skipThroughSlash next bs
  | everythingBelow, bs => afterSlash (skipAny next) bs
  | innerDirectories, bs => afterSlash (fun rest => next rest || skipThroughSlash next rest) bs
  | oneOf negated ranges, bs => oneByte (classHolds negated ranges) next bs
  | alternatives branches, bs => if allVoid branches then next bs else someHolds next branches bs

/-- Whether the pieces match the start of a path and the test holds behind them. -/
def allHold (next : Continuation) : List GlobPiece → List UInt8 → Bool
  | [], bs => next bs
  | piece :: pieces, bs => holds (fun rest => allHold next pieces rest) piece bs

/-- Whether one of the branches matches the start of a path and the test holds behind it. -/
def someHolds (next : Continuation) : List (List GlobPiece) → List UInt8 → Bool
  | [], _ => false
  | branch :: branches, bs =>
    (!piecesVoid branch && allHold next branch bs) || someHolds next branches bs

end

end GlobPiece

/-- A glob pattern. -/
structure Glob where
  pieces : List GlobPiece

/-- Whether the pattern matches a path. Two stars alone match every path. -/
def Glob.isMatch (glob : Glob) (path : String) : Bool :=
  match glob.pieces with
  | [.leadingDirectories] => true
  | pieces => GlobPiece.allHold List.isEmpty pieces path.toUTF8.toList

end ZeroAlloc

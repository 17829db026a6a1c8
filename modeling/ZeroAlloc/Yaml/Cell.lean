import ZeroAlloc.Yaml.Charset
set_option autoImplicit false

/-! # Characters in their places

Indentation decides what a settings text means, so each character is read together with its place.
Line ends of every kind but the two separators count as a line feed. -/

namespace ZeroAlloc.Yaml

/-- A character with the numbers of the lines before it and of the characters before it on its
line. -/
structure Cell where
  char : Char
  line : Nat
  column : Nat

namespace Cell

/-- Whether the character is a space or a tab. -/
def isBlank (c : Cell) : Bool :=
  Yaml.isBlank c.char

/-- Whether the character ends a line. -/
def isBreak (c : Cell) : Bool :=
  Yaml.isBreak c.char

/-- The characters in their places, of which the first has the given one. -/
def place (line column : Nat) : List Char → List Cell
  | [] => []
  | '\r' :: '\n' :: cs => ⟨'\n', line, column⟩ :: place (line + 1) 0 cs
  | c :: cs =>
    if c == '\r' || c == '\x85' then ⟨'\n', line, column⟩ :: place (line + 1) 0 cs
    else if Yaml.isBreak c then ⟨c, line, column⟩ :: place (line + 1) 0 cs
    else ⟨c, line, column⟩ :: place line (column + 1) cs

/-- The cells of a text, if all its characters can be read. A mark for the byte order in front takes
a place and is no character of the text. -/
def ofText? (text : String) : Option (List Cell) :=
  let cs := text.toList
  if !cs.all isReadable then none
  else
    match cs with
    | '\ufeff' :: cs => some (place 0 1 cs)
    | cs => some (place 0 0 cs)

/-- Whether a blank, a break or the end comes first. -/
def endsWord (cs : List Cell) : Bool :=
  cs.head?.all fun c => c.isBlank || c.isBreak

/-- Whether a break or the end comes first. -/
def endsLine (cs : List Cell) : Bool :=
  cs.head?.all isBreak

/-- Whether the given character comes first. -/
def startsWith (c : Char) (cs : List Cell) : Bool :=
  cs.head?.any (·.char == c)

/-- Whether a mark for the start or the end of a document comes first. -/
def startsMarker (cs : List Cell) : Bool :=
  cs.head?.any (·.column == 0) && Yaml.startsMarker ((cs.take 3).map char) && endsWord (cs.drop 3)

/-- What follows the blanks and the comment at the start, if no other text does on the line. -/
def afterLine? (cs : List Cell) : Option (List Cell) :=
  let cs := cs.dropWhile isBlank
  let cs := if startsWith '#' cs then cs.dropWhile fun c => !c.isBreak else cs
  if endsLine cs then some cs.tail else none

end Cell

end ZeroAlloc.Yaml

import ZeroAlloc.Yaml.Flow
set_option autoImplicit false

/-! # Texts of whole lines

Behind a bar or an angle bracket stands a text of lines that are indented by the same width: the
width of the first one, if the header does not give it. A bar keeps the breaks between the lines, an
angle bracket folds them. -/

namespace ZeroAlloc.Yaml

/-! ## Headers -/

/-- What becomes of the breaks at the end of a text of lines. -/
inductive Ending where
  /-- One break is kept. -/
  | clip
  /-- No break is kept. -/
  | strip
  | keep
  deriving DecidableEq

/-- The ending that a character asks for. -/
def Ending.ofChar? : Char → Option Ending
  | '-' => some .strip
  | '+' => some .keep
  | _ => none

/-- What stands behind the bar or angle bracket. -/
structure BlockHeader where
  ending : Ending
  /-- How much deeper than their surroundings the lines are indented, if that is said. -/
  depth? : Option Nat

namespace BlockHeader

/-- The ending that comes first, if one does, and what follows. -/
def takeEnding (cs : List Cell) : Option Ending × List Cell :=
  match cs with
  | [] => (none, [])
  | c :: rest =>
    match Ending.ofChar? c.char with
    | some e => (some e, rest)
    | none => (none, cs)

/-- The depth that comes first, if one does, and what follows. -/
def takeDepth (cs : List Cell) : Option Nat × List Cell :=
  match cs with
  | [] => (none, [])
  | c :: rest => if c.char.isDigit then (digitValue? c.char, rest) else (none, cs)

/-- The header that comes first, and the lines behind it. The ending and the depth may come in any
order, and the depth must not be zero. -/
def read? (cs : List Cell) : Option (BlockHeader × List Cell) :=
  let (early, cs) := takeEnding cs
  let (depth?, cs) := takeDepth cs
  let (late, cs) := if early.isNone && depth?.isSome then takeEnding cs else (none, cs)
  if depth? == some 0 then none
  else (Cell.afterLine? cs).map fun cs => (⟨(early.or late).getD .clip, depth?⟩, cs)

end BlockHeader

/-! ## Lines -/

/-- The greatest column at which one of the first lines ends or starts its text, up to the first
line that has text. A tab must not come first on those lines. -/
def greatestColumn? (column : Nat) : List Cell → Option Nat
  | [] => some column
  | c :: cs =>
    if c.char == ' ' then greatestColumn? column cs
    else if c.char == '\t' then none
    else if c.isBreak then greatestColumn? (max column c.column) cs
    else some (max column c.column)

/-- The column of the lines of a text. -/
def blockColumn? (margin : Nat) (header : BlockHeader) (cs : List Cell) : Option Nat :=
  match header.depth? with
  | some depth => some (margin - 1 + depth)
  | none => (greatestColumn? 0 cs).map fun column => max column (max margin 1)

/-- How far a text of lines has been read. -/
structure BlockReading where
  /-- The text, in reverse. -/
  text : List Char
  /-- The break that ended the last line that had text. -/
  lineBreak : Option Char
  /-- The breaks behind it, in reverse. -/
  emptyLines : List Char
  /-- Whether the last line that had text started with a blank. -/
  indented : Bool
  /-- Whether the present line has text. -/
  inLine : Bool

namespace BlockReading

/-- Nothing has been read. -/
def start : BlockReading := ⟨[], none, [], false, false⟩

/-- The breaks in front of a line that has text. A line feed between two lines that start with no
blank is folded. -/
def gap (r : BlockReading) (folds blank : Bool) : List Char :=
  let breaks := r.lineBreak.toList ++ r.emptyLines.reverse
  if folds && r.lineBreak == some '\n' && !r.indented && !blank then Gap.folded breaks else breaks

/-- Read the first character of a line that has text. -/
def openLine (r : BlockReading) (folds : Bool) (c : Cell) : BlockReading :=
  { text := c.char :: ((r.gap folds c.isBlank).reverse ++ r.text)
    lineBreak := none, emptyLines := [], indented := c.isBlank, inLine := true }

/-- Read a break. -/
def addBreak (r : BlockReading) (c : Cell) : BlockReading :=
  if r.inLine then { r with lineBreak := some c.char, inLine := false }
  else { r with emptyLines := c.char :: r.emptyLines }

/-- The text that has been read. -/
def finish (r : BlockReading) (ending : Ending) : String :=
  let breaks := match ending with
    | .strip => []
    | .clip => r.lineBreak.toList
    | .keep => r.lineBreak.toList ++ r.emptyLines.reverse
  String.ofList (r.text.reverse ++ breaks)

end BlockReading

/-- Read the lines that are indented to a column, and what follows them. A tab must not take the
place of the spaces of the indentation. -/
def blockLines? (folds : Bool) (column : Nat) (r : BlockReading) :
    List Cell → Option (BlockReading × List Cell)
  | [] => some (r, [])
  | c :: cs =>
    if c.isBreak then blockLines? folds column (r.addBreak c) cs
    else if r.inLine then blockLines? folds column { r with text := c.char :: r.text } cs
    else if c.column < column && c.char == ' ' then blockLines? folds column r cs
    else if c.column < column && c.char == '\t' then none
    else if c.column = column then blockLines? folds column (r.openLine folds c) cs
    else some (r, c :: cs)

/-- Read the text of lines behind a bar or, if breaks are folded, behind an angle bracket. -/
def block? (folds : Bool) (margin : Nat) (cs : List Cell) : Option (String × List Cell) := do
  let (header, lines) ← BlockHeader.read? cs
  let column ← blockColumn? margin header lines
  let (reading, rest) ← blockLines? folds column .start lines
  return (reading.finish header.ending, rest)

end ZeroAlloc.Yaml

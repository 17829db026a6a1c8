import ZeroAlloc.Yaml.Cell
import ZeroAlloc.Yaml.Charset
set_option autoImplicit false

/-! # Tokens of a settings text

The pieces that a settings text consists of. The starts and ends of indented collections are tokens
too. The smaller tokens are read here: anchors, tags and directives. -/

namespace ZeroAlloc.Yaml

/-- How a text is marked as one. -/
inductive ScalarStyle where
  | plain
  | quoted
  /-- Lines behind a bar. -/
  | literal
  /-- Lines behind an angle bracket. -/
  | folded
  deriving DecidableEq

/-- A text and how it is marked as one. -/
structure Scalar where
  text : String
  style : ScalarStyle

/-- A line about the document behind it. -/
inductive Directive where
  | version (major minor : Nat)
  /-- What a handle stands for at the start of tags. -/
  | tag (handle : String) (expansion : List UInt8)

/-- A piece of a settings text. -/
inductive Token where
  | directive (d : Directive)
  | documentStart
  | documentEnd
  /-- The start of a list whose items are indented. -/
  | listStart
  /-- The start of fields that are indented. -/
  | fieldsStart
  /-- The end of an indented collection. -/
  | indentEnd
  | openSquare
  | closeSquare
  | openBrace
  | closeBrace
  | comma
  /-- The hyphen in front of an item. -/
  | item
  | key
  | value
  | alias (name : String)
  | anchor (name : String)
  | tag (handle : String) (suffix : List UInt8)
  | scalar (s : Scalar)

/-! ## Names -/

/-- The name that comes first, and what follows it. -/
def spanName (cs : List Cell) : String × List Cell :=
  (String.ofList ((cs.takeWhile fun c => isNameChar c.char).map Cell.char),
    cs.dropWhile fun c => isNameChar c.char)

/-- Whether a character can follow the name of an anchor. -/
def followsAnchor (c : Char) : Bool :=
  ['?', ':', ',', ']', '\x7d', '%', '@', '\x60'].contains c

/-- The name of an anchor that comes first, and what follows it. -/
def anchorName? (cs : List Cell) : Option (String × List Cell) :=
  let (name, rest) := spanName cs
  if name.isEmpty || !(Cell.endsWord rest || rest.head?.any fun c => followsAnchor c.char) then none
  else some (name, rest)

/-! ## Tags -/

/-- Whether a character can stand in a tag; some can only if the tag is enclosed. -/
def isTagChar (enclosed : Bool) (c : Char) : Bool :=
  isNameChar c ||
    [';', '/', '?', ':', '@', '&', '=', '+', '$', '.', '!', '~', '*', '\'', '(', ')'].contains c ||
    (enclosed && (c == ',' || c == '[' || c == ']'))

/-- How many bytes a character has that starts with the given byte. -/
def byteWidth? (b : Nat) : Option Nat :=
  if b < 0x80 then some 1
  else if b / 0x20 = 6 then some 2
  else if b / 0x10 = 14 then some 3
  else if b / 0x08 = 30 then some 4
  else none

/-- How many further bytes a character has behind a byte, if the byte can stand behind a character
that lacks the given number of bytes. -/
def bytesDue? (due b : Nat) : Option Nat :=
  match due with
  | 0 => (byteWidth? b).map (· - 1)
  | due + 1 => if b / 0x40 = 2 then some due else none

/-- Read the bytes of a tag behind bytes, which are in reverse. A percent sign and two hexadecimal
digits stand for a byte; the bytes of a character have to stand together. -/
def tagBytesFrom (enclosed : Bool) (bytes : List UInt8) (due : Nat) :
    List Cell → Option (List UInt8 × List Cell)
  | [] => if due = 0 then some (bytes.reverse, []) else none
  | c :: cs =>
    if c.char == '%' then
      match cs with
      | a :: b :: cs =>
        match natural? 16 [a.char, b.char] with
        | some byte =>
          match bytesDue? due byte with
          | some due => tagBytesFrom enclosed (byte.toUInt8 :: bytes) due cs
          | none => none
        | none => none
      | _ => none
    else if due ≠ 0 then none
    else if isTagChar enclosed c.char then
      tagBytesFrom enclosed (c.char.toNat.toUInt8 :: bytes) 0 cs
    else some (bytes.reverse, c :: cs)

/-- The bytes of a tag that come first, of which there has to be one, and what follows them. -/
def tagBytes? (enclosed : Bool) (cs : List Cell) : Option (List UInt8 × List Cell) :=
  (tagBytesFrom enclosed [] 0 cs).filter fun found => !found.1.isEmpty

/-- The handle and the suffix of the tag behind an exclamation mark, and what follows it. A lone
mark is a tag itself. -/
def tagParts? (cs : List Cell) : Option (String × List UInt8 × List Cell) :=
  if Cell.startsWith '<' cs then do
    let (suffix, rest) ← tagBytes? true cs.tail
    if Cell.startsWith '>' rest then some ("", suffix, rest.tail) else none
  else
    let (name, rest) := spanName cs
    if Cell.startsWith '!' rest then
      (tagBytes? false rest.tail).map fun (suffix, rest) => ("!" ++ name ++ "!", suffix, rest)
    else
      (tagBytesFrom false name.toUTF8.toList.reverse 0 rest).map fun (suffix, rest) =>
        if suffix.isEmpty then ("", "!".toUTF8.toList, rest) else ("!", suffix, rest)

/-- The tag behind an exclamation mark, and what follows it. -/
def tag? (inFlow : Bool) (cs : List Cell) : Option (Token × List Cell) := do
  let (handle, suffix, rest) ← tagParts? cs
  if (inFlow && Cell.startsWith ',' rest) || Cell.endsWord rest then some (.tag handle suffix, rest)
  else none

/-! ## Directives -/

/-- The number of at most nine digits that comes first, and what follows it. -/
def versionNumber? (cs : List Cell) : Option (Nat × List Cell) :=
  let digits := (cs.takeWhile fun c => c.char.isDigit).map Cell.char
  if digits.length > 9 then none
  else (natural? 10 digits).map fun n => (n, cs.drop digits.length)

/-- The version that comes first, and what follows it. -/
def versionDirective? (cs : List Cell) : Option (Directive × List Cell) := do
  let (major, rest) ← versionNumber? (cs.dropWhile Cell.isBlank)
  if Cell.startsWith '.' rest then
    let (minor, rest) ← versionNumber? rest.tail
    return (.version major minor, rest)
  else none

/-- The handle that comes first, with what it stands for, and what follows. -/
def tagDirective? (cs : List Cell) : Option (Directive × List Cell) := do
  let cs := cs.dropWhile Cell.isBlank
  if !Cell.startsWith '!' cs then none
  let (name, rest) := spanName cs.tail
  let closed := Cell.startsWith '!' rest
  if !closed && !name.isEmpty then none
  let rest := if closed then rest.tail else rest
  if !rest.head?.any Cell.isBlank then none
  let (expansion, rest) ← tagBytes? true (rest.dropWhile Cell.isBlank)
  if !Cell.endsWord rest then none
  return (.tag ("!" ++ name ++ if closed then "!" else "") expansion, rest)

/-- The directive behind a percent sign, and the lines behind it. -/
def directive? (cs : List Cell) : Option (Directive × List Cell) := do
  let (name, rest) := spanName cs
  if !Cell.endsWord rest then none
  let (directive, rest) ←
    match name with
    | "YAML" => versionDirective? rest
    | "TAG" => tagDirective? rest
    | _ => none
  return (directive, ← Cell.afterLine? rest)

end ZeroAlloc.Yaml

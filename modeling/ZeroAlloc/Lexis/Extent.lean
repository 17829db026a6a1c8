import ZeroAlloc.Text.CharClass
set_option autoImplicit false

/-! # Extents of lexical shapes

How many characters a shape covers at the start of a text. Zero, or `none` for a body that is never
closed, says that the shape is not there. Names have the same shape in both languages: a letter or
an underscore, then letters, numeric characters and underscores. -/

namespace ZeroAlloc.Lexis

/-- The number of characters before the first one that fails the test. -/
def run (p : Char → Bool) (cs : List Char) : Nat :=
  (cs.takeWhile p).length

/-- The characters up to the next line feed. -/
def restOfLine (cs : List Char) : Nat :=
  run (· ≠ '\n') cs

/-! ## Literals -/

/-- The body of a literal in which a backslash escapes the next character, through its closing
quote. Neither the literal nor an escape extends over a line feed. -/
def escapedBody (quote : Char) : List Char → Option Nat
  | [] => none
  | [c] => if c = quote then some 1 else none
  | c :: d :: cs =>
    if c = quote then some 1
    else if c = '\n' then none
    else if c = '\\' then
      if d = '\n' then none else (escapedBody quote cs).map (· + 2)
    else (escapedBody quote (d :: cs)).map (· + 1)

/-- The body of a literal in which two quotes stand for one, through its closing quote. Two quotes
are taken for one where the literal goes on to a closing quote; otherwise the first of them closes
it. -/
def doubledBody (allowed : Char → Bool) : List Char → Option Nat
  | [] => none
  | [c] => if c = '"' then some 1 else none
  | c :: d :: cs =>
    if c = '"' then
      if d = '"' then
        match doubledBody allowed cs with
        | some n => some (n + 2)
        | none => some 1
      else some 1
    else if allowed c then (doubledBody allowed (d :: cs)).map (· + 1)
    else none

/-- The body of a block comment, through its end. -/
def commentBody : List Char → Option Nat
  | '*' :: '/' :: _ => some 2
  | _ :: cs => (commentBody cs).map (· + 1)
  | [] => none

/-! ## Numbers -/

/-- A decimal digit or a separator between digits. -/
def isDigitOrSeparator (c : Char) : Bool :=
  c.isDigit || c == '_'

/-- Digits and separators that start with a digit. -/
def wholePart : List Char → Nat
  | c :: cs => if c.isDigit then 1 + run isDigitOrSeparator cs else 0
  | [] => 0

/-- A point with digits behind it. -/
def fractionPart : List Char → Nat
  | '.' :: cs => if wholePart cs = 0 then 0 else 1 + wholePart cs
  | _ => 0

/-- An optional sign. -/
def sign : List Char → Nat
  | '+' :: _ => 1
  | '-' :: _ => 1
  | _ => 0

/-- The letter `e`, an optional sign and digits. -/
def exponentPart : List Char → Nat
  | c :: cs =>
    let digits := run Char.isDigit (cs.drop (sign cs))
    if (c == 'e' || c == 'E') && digits ≠ 0 then 1 + sign cs + digits else 0
  | [] => 0

/-- A decimal number up to its type suffix. -/
def decimalNumber (cs : List Char) : Nat :=
  match wholePart cs with
  | 0 => 0
  | whole =>
    let fraction := fractionPart (cs.drop whole)
    whole + fraction + exponentPart (cs.drop (whole + fraction))

/-! ## Names -/

/-- Whether a name can start with the character. -/
def startsName (c : Char) : Bool :=
  c == '_' || Text.isLetter c

/-- Whether a name can go on with the character. -/
def continuesName (c : Char) : Bool :=
  c == '_' || Text.isLetter c || Text.isNumeric c

/-- The extent of a name. -/
def name : List Char → Nat
  | c :: cs => if startsName c then 1 + run continuesName cs else 0
  | [] => 0

end ZeroAlloc.Lexis

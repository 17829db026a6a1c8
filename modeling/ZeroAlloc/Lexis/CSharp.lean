import ZeroAlloc.Lexis.Extent
import ZeroAlloc.Lexis.Rule
import ZeroAlloc.Text.Blank
set_option autoImplicit false

/-! # The lexis of C#

Blank space, comments and preprocessor directives are dropped. A directive runs from a number sign
to the end of its line, wherever the sign stands. -/

namespace ZeroAlloc.Lexis.CSharp

/-- Two slashes and the rest of the line. -/
def lineComment : List Char → Nat
  | '/' :: '/' :: cs => 2 + restOfLine cs
  | _ => 0

/-- A comment between `/*` and `*/`. -/
def blockComment : List Char → Nat
  | '/' :: '*' :: cs =>
    match commentBody cs with
    | some n => 2 + n
    | none => 0
  | _ => 0

/-- A block comment that the text leaves open: all the rest of the text. -/
def openComment : List Char → Nat
  | '/' :: '*' :: cs => 2 + cs.length
  | _ => 0

/-- A preprocessor directive. -/
def directive : List Char → Nat
  | '#' :: cs => 1 + restOfLine cs
  | _ => 0

/-- The marks and the opening quote of a verbatim string. -/
def verbatimOpening : List Char → Nat
  | '$' :: '@' :: '"' :: _ => 3
  | '@' :: '$' :: '"' :: _ => 3
  | '@' :: '"' :: _ => 2
  | _ => 0

/-- A verbatim string, which may hold line feeds and doubles its quotes. -/
def verbatimString (cs : List Char) : Nat :=
  match verbatimOpening cs with
  | 0 => 0
  | n =>
    match doubledBody (fun _ => true) (cs.drop n) with
    | some m => n + m
    | none => 0

/-- The mark and the opening quote of an ordinary string. -/
def stringOpening : List Char → Nat
  | '$' :: '"' :: _ => 2
  | '"' :: _ => 1
  | _ => 0

/-- An ordinary or interpolated string. -/
def string (cs : List Char) : Nat :=
  match stringOpening cs with
  | 0 => 0
  | n =>
    match escapedBody '"' (cs.drop n) with
    | some m => n + m
    | none => 0

/-- A character literal; it is not empty. -/
def charLiteral : List Char → Nat
  | '\'' :: cs =>
    match escapedBody '\'' cs with
    | some (n + 2) => 1 + (n + 2)
    | _ => 0
  | _ => 0

/-- A quote, with any marks before it, that no literal covers, and the rest of its line. -/
def brokenLiteral (cs : List Char) : Nat :=
  let marks := run (fun c => c == '$' || c == '@') cs
  match cs.drop marks with
  | c :: rest => if c == '"' || c == '\'' then marks + 1 + restOfLine rest else 0
  | [] => 0

/-- A letter of the suffixes that integer literals take. -/
def isIntegerSuffix (c : Char) : Bool :=
  c == 'u' || c == 'U' || c == 'l' || c == 'L'

/-- A letter of the suffixes that number literals take. -/
def isNumberSuffix (c : Char) : Bool :=
  isIntegerSuffix c || c == 'f' || c == 'F' || c == 'd' || c == 'D' || c == 'm' || c == 'M'

/-- A hexadecimal digit or a separator. -/
def isHexOrSeparator (c : Char) : Bool :=
  c.isDigit || ('a' ≤ c && c ≤ 'f') || ('A' ≤ c && c ≤ 'F') || c == '_'

/-- A binary digit or a separator. -/
def isBinaryOrSeparator (c : Char) : Bool :=
  c == '0' || c == '1' || c == '_'

/-- A zero, a radix letter in either case, at least one digit and any integer suffix. -/
def radixNumber (lower upper : Char) (digit : Char → Bool) : List Char → Nat
  | '0' :: x :: cs =>
    match run digit cs with
    | 0 => 0
    | n => if x == lower || x == upper then 2 + n + run isIntegerSuffix (cs.drop n) else 0
  | _ => 0

/-- A decimal number and any number suffix. -/
def number (cs : List Char) : Nat :=
  match decimalNumber cs with
  | 0 => 0
  | n => n + run isNumberSuffix (cs.drop n)

/-- A name, which an `@` may precede. -/
def identifier : List Char → Nat
  | '@' :: cs =>
    match name cs with
    | 0 => 0
    | n => 1 + n
  | cs => name cs

/-- The punctuation characters. -/
def isPunctuation (c : Char) : Bool :=
  "\x7b\x7d[]().,;:?<>=+-*/%&|^!~".toList.contains c

/-- One punctuation character. -/
def punctuation : List Char → Nat
  | c :: _ => if isPunctuation c then 1 else 0
  | [] => 0

/-- The rules of C#, in the order in which they are tried. -/
def rules : List Rule := [
  ⟨none, run Text.isBlank⟩,
  ⟨none, lineComment⟩,
  ⟨none, blockComment⟩,
  ⟨some .error, openComment⟩,
  ⟨none, directive⟩,
  ⟨some .str, verbatimString⟩,
  ⟨some .str, string⟩,
  ⟨some .str, charLiteral⟩,
  ⟨some .error, brokenLiteral⟩,
  ⟨some .number, radixNumber 'x' 'X' isHexOrSeparator⟩,
  ⟨some .number, radixNumber 'b' 'B' isBinaryOrSeparator⟩,
  ⟨some .number, number⟩,
  ⟨some .ident, identifier⟩,
  ⟨some .punct, punctuation⟩]

end ZeroAlloc.Lexis.CSharp

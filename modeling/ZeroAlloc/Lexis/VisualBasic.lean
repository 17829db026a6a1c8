import ZeroAlloc.Lexis.Extent
import ZeroAlloc.Lexis.Rule
import ZeroAlloc.Text.CharClass
set_option autoImplicit false

/-! # The lexis of Visual Basic

Spaces, comments, preprocessor directives and line continuations are dropped; a line feed is a
lexeme, since it can end a statement. Letters that stand for themselves in a rule do so in either
case, and a letter case can also be written as the long s `ſ` or the Kelvin sign `K`, which fold to
`s` and `k`. -/

namespace ZeroAlloc.Lexis.VisualBasic

/-- The blank characters of a line. -/
def isLineBlank (c : Char) : Bool :=
  c == ' ' || c == '\t' || c == '\r' || c == '\x0c'

/-- An underscore at the end of a line, with the line feed. -/
def continuation : List Char → Nat
  | '_' :: cs =>
    let blanks := run (fun c => c == ' ' || c == '\t') cs
    match cs.drop blanks with
    | '\n' :: _ => 2 + blanks
    | '\r' :: '\n' :: _ => 3 + blanks
    | _ => 0
  | _ => 0

/-- An apostrophe and the rest of the line. -/
def comment : List Char → Nat
  | '\'' :: cs => 1 + restOfLine cs
  | _ => 0

/-- The word `Rem` and the rest of the line. -/
def remark : List Char → Nat
  | r :: e :: m :: cs =>
    if r.toLower == 'r' && e.toLower == 'e' && m.toLower == 'm' &&
        !(cs.head?.any Text.isWordChar) then
      3 + restOfLine cs
    else 0
  | _ => 0

/-- A line feed. -/
def newline : List Char → Nat
  | '\n' :: _ => 1
  | _ => 0

/-- A date between number signs. -/
def date : List Char → Nat
  | '#' :: d :: cs =>
    let body := run (fun c => c ≠ '#' && c ≠ '\n') cs
    if d.isDigit && (cs.drop body).head? == some '#' then 3 + body else 0
  | _ => 0

/-- A preprocessor directive. -/
def directive : List Char → Nat
  | '#' :: cs => 1 + restOfLine cs
  | _ => 0

/-- A string, which doubles its quotes, or a character, which the letter `c` follows. -/
def string : List Char → Nat
  | '"' :: cs =>
    match doubledBody (· ≠ '\n') cs with
    | some n =>
      match cs.drop n with
      | 'c' :: _ => 2 + n
      | 'C' :: _ => 2 + n
      | _ => 1 + n
    | none => 0
  | _ => 0

/-- A quote that opens no string, and the rest of its line. -/
def brokenString : List Char → Nat
  | '"' :: cs => 1 + restOfLine cs
  | _ => 0

/-- A hexadecimal digit or a separator. -/
def isHexOrSeparator (c : Char) : Bool :=
  c.isDigit || ('a' ≤ c.toLower && c.toLower ≤ 'f') || c == '_'

/-- An octal digit or a separator. -/
def isOctalOrSeparator (c : Char) : Bool :=
  ('0' ≤ c && c ≤ '7') || c == '_'

/-- A binary digit or a separator. -/
def isBinaryOrSeparator (c : Char) : Bool :=
  c == '0' || c == '1' || c == '_'

/-- A letter or type character behind the digits of a number with a radix. -/
def isRadixSuffix (c : Char) : Bool :=
  c.isAlpha || c == 'ſ' || c == '\u212a' || c == '%' || c == '&'

/-- An ampersand, a radix letter in either case, at least one digit and anything like a suffix. -/
def radixNumber (radix : Char) (digit : Char → Bool) : List Char → Nat
  | '&' :: x :: cs =>
    match run digit cs with
    | 0 => 0
    | n => if x.toLower == radix then 2 + n + run isRadixSuffix (cs.drop n) else 0
  | _ => 0

/-- The letter `s`, in either case or long. -/
def isLetterS (c : Char) : Bool :=
  c == 's' || c == 'S' || c == 'ſ'

/-- The type suffix of a decimal number: `US`, `UI`, `UL` or one of the single characters. -/
def numberSuffix : List Char → Nat
  | c :: cs =>
    if c.toLower == 'u' then
      match cs with
      | d :: _ => if isLetterS d || d.toLower == 'i' || d.toLower == 'l' then 2 else 0
      | [] => 0
    else if isLetterS c || "ildfr%&@!#".toList.contains c.toLower then 1
    else 0
  | [] => 0

/-- A decimal number and its type suffix. -/
def number (cs : List Char) : Nat :=
  match decimalNumber cs with
  | 0 => 0
  | n => n + numberSuffix (cs.drop n)

/-- A name between square brackets. -/
def bracketedName : List Char → Nat
  | '[' :: cs =>
    match name cs with
    | 0 => 0
    | n => if (cs.drop n).head? == some ']' then 2 + n else 0
  | _ => 0

/-- The punctuation characters. -/
def isPunctuation (c : Char) : Bool :=
  "\x7b\x7d[]().,:;?<>=+-*/\\^&!".toList.contains c

/-- One punctuation character. -/
def punctuation : List Char → Nat
  | c :: _ => if isPunctuation c then 1 else 0
  | [] => 0

/-- The rules of Visual Basic, in the order in which they are tried. -/
def rules : List Rule := [
  ⟨none, run isLineBlank⟩,
  ⟨none, continuation⟩,
  ⟨none, comment⟩,
  ⟨none, remark⟩,
  ⟨some .newline, newline⟩,
  ⟨some .str, date⟩,
  ⟨none, directive⟩,
  ⟨some .str, string⟩,
  ⟨some .error, brokenString⟩,
  ⟨some .number, radixNumber 'h' isHexOrSeparator⟩,
  ⟨some .number, radixNumber 'o' isOctalOrSeparator⟩,
  ⟨some .number, radixNumber 'b' isBinaryOrSeparator⟩,
  ⟨some .number, number⟩,
  ⟨some .ident, bracketedName⟩,
  ⟨some .ident, name⟩,
  ⟨some .punct, punctuation⟩]

end ZeroAlloc.Lexis.VisualBasic

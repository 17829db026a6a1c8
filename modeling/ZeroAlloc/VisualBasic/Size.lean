import ZeroAlloc.Fold
import ZeroAlloc.Text.Case
set_option autoImplicit false

/-! # Array bounds in Visual Basic

A bound is the greatest index, `upper` or `0 To upper`, so the length is one more. Names are the
same in any case. -/

namespace ZeroAlloc.VisualBasic

/-- The conversion functions that keep an integral value. -/
def conversions : List String := [
  "cbyte", "csbyte", "cshort", "cushort", "cint", "cuint", "clng", "culng", "ctype", "directcast"]

/-- A character of the suffixes that integral literals take. -/
def isIntegralSuffix (c : Char) : Bool :=
  c == 'u' || c == 's' || c == 'i' || c == 'l' || c == '%' || c == '&'

/-- A character that marks a literal as floating-point or decimal. -/
def isFractionalSuffix (c : Char) : Bool :=
  c == 'd' || c == 'f' || c == 'r' || c == '@' || c == '!' || c == '#'

/-- The value of an integer literal: decimal, or hexadecimal, octal or binary behind an ampersand
and a letter, without its suffix. -/
def literal? (text : String) : Option Int :=
  match text.toList.map Char.toLower with
  | '&' :: 'h' :: digits => Integer.ofDigits? 16 (dropTrailing isIntegralSuffix digits)
  | '&' :: 'o' :: digits => Integer.ofDigits? 8 (dropTrailing isIntegralSuffix digits)
  | '&' :: 'b' :: digits => Integer.ofDigits? 2 (dropTrailing isIntegralSuffix digits)
  | '&' :: _ => none
  | digits =>
    if digits.getLast?.any isFractionalSuffix then none
    else Integer.ofDigits? 10 (dropTrailing isIntegralSuffix digits)

/-- Whether a call of the name is a conversion. -/
def isConversion (name : String) : Bool :=
  conversions.contains (Text.lowerAscii name)

/-- Size expressions of Visual Basic; there are no casts in front of an operand. -/
def dialect : Dialect where
  literal? := literal?
  castWidth? := fun _ => none
  isConversion := isConversion
  canonicalName := Text.lowerAscii

/-- Whether the lexeme is the word `To`. -/
def isTo (l : Lexeme) : Bool :=
  l.isIdent && Text.equalIgnoringCase l.text "to"

/-- The greatest index that a bound stands for. Where a least index is given it must be zero. -/
def upperBound? (constants : Constants) (bound : List Lexeme) : Option Int :=
  match bound.dropWhile (!isTo ·) with
  | [] => fold dialect constants bound
  | _ :: upper =>
    if fold dialect constants (bound.takeWhile (!isTo ·)) = some 0 then fold dialect constants upper
    else none

/-- The length that a bound stands for. -/
def length? (constants : Constants) (bound : List Lexeme) : Option Int :=
  (upperBound? constants bound).bind fun upper =>
    (Integer.bounded (upper + 1)).filter (0 ≤ ·)

end ZeroAlloc.VisualBasic

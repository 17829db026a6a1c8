import ZeroAlloc.Fold
import ZeroAlloc.Text.Case
set_option autoImplicit false

/-! # Array sizes in C#

A size is the length itself. -/

namespace ZeroAlloc.CSharp

/-- The types that a cast of a size may name. -/
def integralTypes : List String := [
  "sbyte", "byte", "short", "ushort", "int", "uint", "long", "ulong", "nint", "nuint", "SByte",
  "Byte", "Int16", "UInt16", "Int32", "UInt32", "Int64", "UInt64", "IntPtr", "UIntPtr"]

/-- The value of an integer literal: decimal, hexadecimal after `0x` or binary after `0b`, without
its suffix. -/
def literal? (text : String) : Option Int :=
  match dropTrailing (fun c => c == 'u' || c == 'l') (text.toList.map Char.toLower) with
  | '0' :: 'x' :: digits => Integer.ofDigits? 16 digits
  | '0' :: 'b' :: digits => Integer.ofDigits? 2 digits
  | digits => Integer.ofDigits? 10 digits

/-- The last part of the dotted name that a row starts with, the number of its lexemes, and the
rest. -/
def dottedName? : List Lexeme → Option (String × Nat × List Lexeme)
  | [] => none
  | [l] => if l.isIdent then some (l.text, 1, []) else none
  | l :: dot :: ls =>
    if !l.isIdent then none
    else if dot.isPunct "." then
      (dottedName? ls).map fun (last, width, rest) => (last, width + 2, rest)
    else some (l.text, 1, dot :: ls)

/-- The number of lexemes of a cast to an integral type, which has an operand behind it. -/
def castWidth? : List Lexeme → Option Nat
  | [] => none
  | l :: ls =>
    if l.isPunct "(" then
      match dottedName? ls with
      | some (name, width, close :: _ :: _) =>
        if integralTypes.contains name && close.isPunct ")" then some (width + 2) else none
      | _ => none
    else none

/-- The arithmetic contexts, which keep the value of their expression. -/
def isConversion (name : String) : Bool :=
  name == "checked" || name == "unchecked"

/-- Size expressions of C#. -/
def dialect : Dialect where
  literal? := literal?
  castWidth? := castWidth?
  isConversion := isConversion
  canonicalName := id

/-- The length that a size stands for. -/
def length? (constants : Constants) (size : List Lexeme) : Option Int :=
  (fold dialect constants size).filter (0 ≤ ·)

end ZeroAlloc.CSharp

import ZeroAlloc.Text.Visible
set_option autoImplicit false

/-! # Quoted text

How a value is shown in a message: between quotes, with a backslash in front of quotes and
backslashes, short escapes for the usual control characters, and the code of every other character
that is not shown as itself. -/

namespace ZeroAlloc.Text

/-- The hexadecimal digits of a number, without leading zeros. -/
def hexDigits (n : Nat) : List Char :=
  Nat.toDigits 16 n

/-- A character as shown between quotes. -/
def escaped (c : Char) : List Char :=
  match c with
  | '\x00' => ['\\', '0']
  | '\t' => ['\\', 't']
  | '\r' => ['\\', 'r']
  | '\n' => ['\\', 'n']
  | '\\' => ['\\', '\\']
  | '"' => ['\\', '"']
  | c => if isVisible c then [c] else ['\\', 'u', '\x7b'] ++ hexDigits c.toNat ++ ['\x7d']

/-- The text between quotes. -/
def quoted (text : String) : String :=
  String.ofList ('"' :: text.toList.flatMap escaped ++ ['"'])

/-- A path between quotes, in which single quotes are marked as well. -/
def quotedPath (path : String) : String :=
  String.ofList
    ('"' :: path.toList.flatMap (fun c => if c = '\'' then ['\\', '\''] else escaped c) ++ ['"'])

end ZeroAlloc.Text

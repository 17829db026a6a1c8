import ZeroAlloc.Text.Quoted
set_option autoImplicit false

/-! # JSON

Values whose objects keep the order of their fields, and their text: two spaces of indentation a
level, one item a line, and nothing between the brackets of an empty array or object. -/

namespace ZeroAlloc

/-- A JSON value without fractions. -/
inductive Json where
  | bool (b : Bool)
  | number (n : Nat)
  | string (s : String)
  | array (items : List Json)
  | object (fields : List (String × Json))

namespace Json

/-- A character as written in a string. -/
def escaped (c : Char) : List Char :=
  match c with
  | '"' => ['\\', '"']
  | '\\' => ['\\', '\\']
  | '\n' => ['\\', 'n']
  | '\r' => ['\\', 'r']
  | '\t' => ['\\', 't']
  | '\x08' => ['\\', 'b']
  | '\x0c' => ['\\', 'f']
  | c =>
    if c.toNat < 0x10 then ['\\', 'u', '0', '0', '0'] ++ Text.hexDigits c.toNat
    else if c.toNat < 0x20 then ['\\', 'u', '0', '0'] ++ Text.hexDigits c.toNat
    else [c]

/-- A string as written. -/
def quoted (s : String) : String :=
  String.ofList ('"' :: s.toList.flatMap escaped ++ ['"'])

/-- The blanks at the start of a line. -/
def margin (indent : Nat) : String :=
  String.ofList (List.replicate indent ' ')

mutual

/-- The text of a value that starts on a line with the given indentation. -/
def textAt (indent : Nat) : Json → String
  | bool true => "true"
  | bool false => "false"
  | number n => toString n
  | string s => quoted s
  | array [] => "[]"
  | array (item :: items) =>
    "[\n" ++ itemsText (indent + 2) (item :: items) ++ "\n" ++ margin indent ++ "]"
  | object [] => "\x7b\x7d"
  | object (field :: fields) =>
    "\x7b\n" ++ fieldsText (indent + 2) (field :: fields) ++ "\n" ++ margin indent ++ "\x7d"

/-- The lines of the items of an array. -/
def itemsText (indent : Nat) : List Json → String
  | [] => ""
  | [item] => margin indent ++ textAt indent item
  | item :: next :: items =>
    margin indent ++ textAt indent item ++ ",\n" ++ itemsText indent (next :: items)

/-- The lines of the fields of an object. -/
def fieldsText (indent : Nat) : List (String × Json) → String
  | [] => ""
  | [(name, value)] => margin indent ++ quoted name ++ ": " ++ textAt indent value
  | (name, value) :: next :: fields =>
    margin indent ++ quoted name ++ ": " ++ textAt indent value ++ ",\n" ++
      fieldsText indent (next :: fields)

end

/-- The text of a value. -/
def text (value : Json) : String :=
  textAt 0 value

end Json

end ZeroAlloc

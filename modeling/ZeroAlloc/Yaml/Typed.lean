import ZeroAlloc.Yaml.Charset
set_option autoImplicit false

/-! # Texts that look like other values

Without quotes some texts stand for nothing, for a truth value or for a number. Those are quoted
when they are written. -/

namespace ZeroAlloc.Yaml

/-- The words for no value. -/
def nullWords : List String :=
  ["null", "Null", "NULL", "~"]

/-- The truth value that a word names. -/
def boolOf? (word : String) : Option Bool :=
  if ["true", "True", "TRUE"].contains word then some true
  else if ["false", "False", "FALSE"].contains word then some false
  else none

/-! ## Whole numbers -/

/-- A number with its sign and the base that its first characters name. -/
def unsigned? : List Char → Option Nat
  | '0' :: 'x' :: cs => natural? 16 cs
  | '0' :: 'o' :: cs => natural? 8 cs
  | '0' :: 'b' :: cs => natural? 2 cs
  | cs => natural? 10 cs

/-- Whether the characters are decimal digits, more than one of them, and the first of them is
zero. -/
def hasLeadingZero : List Char → Bool
  | '0' :: c :: cs => (c :: cs).all Char.isDigit
  | _ => false

/-- The characters behind a sign, if there is one. -/
def unsignedPart : List Char → List Char
  | '+' :: cs => cs
  | '-' :: cs => cs
  | cs => cs

/-- Whether the characters spell a whole number of at most 128 bits. -/
def isInteger : List Char → Bool
  | '-' :: cs => (unsigned? cs).any (· ≤ Nat.pow 2 127)
  | '+' :: cs => (unsigned? cs).any (· < Nat.pow 2 128)
  | cs => (unsigned? cs).any (· < Nat.pow 2 128)

/-! ## Numbers with a point or an exponent -/

/-- A number as digits and a power of ten. -/
structure Decimal where
  digits : Nat
  exponent : Int

/-- Read the exponent behind the digits of a number, of which some stand behind the point. -/
def exponent? (fraction : Nat) : List Char → Option Int
  | [] => some (-(fraction : Int))
  | c :: cs =>
    if c == 'e' || c == 'E' then
      match cs with
      | '-' :: cs => (natural? 10 cs).map fun n => -(n : Int) - fraction
      | '+' :: cs => (natural? 10 cs).map fun n => (n : Int) - fraction
      | cs => (natural? 10 cs).map fun n => (n : Int) - fraction
    else none

/-- The digits at the start, and what follows them. -/
def spanDigits (cs : List Char) : List Char × List Char :=
  (cs.takeWhile Char.isDigit, cs.dropWhile Char.isDigit)

/-- A decimal number without a sign. There has to be a digit in front of the exponent. -/
def decimal? (cs : List Char) : Option Decimal :=
  let (whole, rest) := spanDigits cs
  let (fraction, rest) := match rest with
    | '.' :: rest => spanDigits rest
    | rest => ([], rest)
  match natural? 10 (whole ++ fraction), exponent? fraction.length rest with
  | some digits, some exponent => some ⟨digits, exponent⟩
  | _, _ => none

/-- The least number that is rounded to infinity when it is stored in 64 bits. -/
def overflowBound : Nat :=
  (Nat.pow 2 54 - 1) * Nat.pow 2 970

/-- Whether the number is below the bound. With more than 310 or less than 300 digits in front of
the point that is plain; else the two are compared. -/
def Decimal.isBounded (d : Decimal) : Bool :=
  let order : Int := (Nat.toDigits 10 d.digits).length + d.exponent
  if d.digits = 0 || order < 300 then true
  else if order > 310 then false
  else d.digits * Nat.pow 10 d.exponent.toNat < overflowBound * Nat.pow 10 (-d.exponent).toNat

/-- Whether the characters, which have no sign, spell a number that is not infinite. -/
def isFinite (cs : List Char) : Bool :=
  (decimal? cs).any Decimal.isBounded

/-- The spellings of infinity. -/
def infinityWords : List String :=
  [".inf", ".Inf", ".INF", "+.inf", "+.Inf", "+.INF", "-.inf", "-.Inf", "-.INF"]

/-- The spellings of what is no number. -/
def notNumberWords : List String :=
  [".nan", ".NaN", ".NAN"]

/-- Whether a text would not be read as itself without quotes: it is empty, names no value, a truth
value or a number, or is a row of digits that is no number because it starts with zero. -/
def looksTyped (text : String) : Bool :=
  let cs := text.toList
  cs.isEmpty || nullWords.contains text || (boolOf? text).isSome ||
    infinityWords.contains text || notNumberWords.contains text ||
    isInteger cs || isFinite (unsignedPart cs) || hasLeadingZero (unsignedPart cs)

end ZeroAlloc.Yaml

set_option autoImplicit false

/-! # Characters of a settings text

The classes of characters that reading and writing YAML tell apart, and natural numbers in a base of
at most 36, with letters of either case as digits beyond nine. -/

namespace ZeroAlloc.Yaml

/-! ## Digits -/

/-- The value of a digit, also beyond nine. -/
def digitValue? (c : Char) : Option Nat :=
  if c.isDigit then some (c.toNat - '0'.toNat)
  else if 'a' ≤ c && c ≤ 'z' then some (c.toNat - 'a'.toNat + 10)
  else if 'A' ≤ c && c ≤ 'Z' then some (c.toNat - 'A'.toNat + 10)
  else none

/-- The number that digits of a base spell behind a number. -/
def digitsFrom? (base value : Nat) : List Char → Option Nat
  | [] => some value
  | c :: cs =>
    match digitValue? c with
    | some d => if d < base then digitsFrom? base (value * base + d) cs else none
    | none => none

/-- The number that digits of a base spell. There has to be a digit. -/
def natural? (base : Nat) (cs : List Char) : Option Nat :=
  if cs.isEmpty then none else digitsFrom? base 0 cs

/-! ## Classes of characters -/

/-- Whether a character is a space or a tab. -/
def isBlank (c : Char) : Bool :=
  c == ' ' || c == '\t'

/-- Whether a character ends a line. -/
def isBreak (c : Char) : Bool :=
  c == '\n' || c == '\r' || c == '\x85' || c == '\u2028' || c == '\u2029'

/-- Whether a character may stand in a text that is read. -/
def isReadable (c : Char) : Bool :=
  c == '\t' || c == '\n' || c == '\r' || c == '\x85' || (' ' ≤ c && c ≤ '~') ||
    ('\xa0' ≤ c && c ≤ '\ufffd') || '\uffff' < c

/-- Whether a character is written as itself outside double quotes. -/
def isPrintable (c : Char) : Bool :=
  c == '\n' || (' ' ≤ c && c ≤ '~') || ('\xa0' ≤ c && c ≤ '\ufffd' && c != '\ufeff') || '\uffff' < c

/-- Whether a character may stand in the name of an anchor. -/
def isNameChar (c : Char) : Bool :=
  c.isAlphanum || c == '_' || c == '-'

/-- Whether characters start with a mark for the start or the end of a document. -/
def startsMarker : List Char → Bool
  | '-' :: '-' :: '-' :: _ => true
  | '.' :: '.' :: '.' :: _ => true
  | _ => false

end ZeroAlloc.Yaml

set_option autoImplicit false

/-! # Styled text

Text in a terminal may be coloured. A style is switched on by a code in front of the text and off by
one behind it; where the text itself switches styles off, the style is switched on again. -/

namespace ZeroAlloc.Report

/-- The styles that reports use. -/
inductive Style where
  | bold
  | dimmed
  | red
  | green
  | yellow
  | blue
  | boldCyan
  deriving DecidableEq

namespace Style

/-- The code that switches the style on. -/
def code : Style → List Char
  | bold => "\x1b[1m".toList
  | dimmed => "\x1b[2m".toList
  | red => "\x1b[31m".toList
  | green => "\x1b[32m".toList
  | yellow => "\x1b[33m".toList
  | blue => "\x1b[34m".toList
  | boldCyan => "\x1b[1;36m".toList

/-- The code that switches all styles off. -/
def reset : List Char :=
  "\x1b[0m".toList

/-- The text with the code behind each place where it switches styles off. -/
def renew (code : List Char) : List Char → List Char
  | '\x1b' :: '[' :: '0' :: 'm' :: cs => reset ++ code ++ renew code cs
  | c :: cs => c :: renew code cs
  | [] => []

/-- The text, filled up with blanks to a width. -/
def padded (width : Nat) (cs : List Char) : List Char :=
  cs ++ List.replicate (width - cs.length) ' '

/-- The text in a style, filled up with blanks to a width; plain if there are no colours. -/
def applyPadded (style : Style) (color : Bool) (width : Nat) (text : String) : String :=
  if color then
    String.ofList (style.code ++ padded width (renew style.code text.toList) ++ reset)
  else String.ofList (padded width text.toList)

/-- The text in a style. -/
def apply (style : Style) (color : Bool) (text : String) : String :=
  style.applyPadded color 0 text

end Style

end ZeroAlloc.Report

set_option autoImplicit false

/-! # Letter case

Words that may be written in any case are compared by their lower-case form. Only the letters of
ASCII have one; all other characters stand for themselves. -/

namespace ZeroAlloc.Text

/-- The text with its ASCII letters in lower case. -/
def lowerAscii (s : String) : String :=
  String.ofList (s.toList.map Char.toLower)

/-- Whether two texts differ at most in the case of ASCII letters. -/
def equalIgnoringCase (a b : String) : Bool :=
  lowerAscii a = lowerAscii b

end ZeroAlloc.Text

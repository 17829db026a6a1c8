import ZeroAlloc.Place
import ZeroAlloc.Site
import ZeroAlloc.Text.Case
set_option autoImplicit false

/-! # Type references in Visual Basic

A type is a dotted name whose parts may take type arguments `(Of …)`, then a nullable mark, then
array levels. Keywords are the same in any case. -/

namespace ZeroAlloc.VisualBasic

/-- Whether the lexeme is the keyword, which is given in lower case. -/
def isKeyword (l : Lexeme) (word : String) : Bool :=
  l.isIdent && Text.lowerAscii l.text == word

/-- Whether the row starts with the keyword. -/
def startsWithKeyword (word : String) (ls : List Lexeme) : Bool :=
  ls.head?.any (isKeyword · word)

/-- Words that can never begin a type, in lower case. -/
def nonTypeWords : List String := [
  "new", "with", "from", "of", "as", "dim", "return", "nothing", "function", "sub", "end", "if",
  "then", "else", "byval", "byref", "optional", "paramarray", "me", "mybase", "myclass", "true",
  "false", "not", "and", "or", "andalso", "orelse", "xor", "is", "isnot", "typeof", "gettype",
  "call", "const", "private", "public", "protected", "friend", "shared", "static", "readonly",
  "class", "structure", "module", "interface", "namespace", "imports", "to", "step", "in",
  "each", "for", "next", "while", "do", "loop", "select", "case", "property", "event",
  "handles", "implements", "inherits", "redim", "preserve", "operator", "declare"]

/-- Whether a bracketed list is a list of type arguments. -/
def startsTypeArguments (ls : List Lexeme) : Bool :=
  startsWithPunct "(" ls && startsWithKeyword "of" ls.tail

/-- The type arguments that the row starts with, possibly none at all, and what follows them. -/
def typeArguments? (ls : List Lexeme) : Option (List Lexeme × List Lexeme) :=
  if startsTypeArguments ls then
    (BracketPair.parens.group? ls).map fun (inside, rest) => (ls.take (inside.length + 2), rest)
  else some ([], ls)

theorem length_le_of_typeArguments {ls taken rest : List Lexeme}
    (h : typeArguments? ls = some (taken, rest)) : rest.length ≤ ls.length := by
  unfold typeArguments? at h
  split at h
  · obtain ⟨⟨i, r⟩, hg, he⟩ := Option.map_eq_some_iff.1 h
    cases he
    exact Nat.le_of_lt (BracketPair.length_lt_of_group hg)
  · cases h
    exact Nat.le_refl _

/-- The type name that the row starts with, and what follows it. -/
def typeName? (ls : List Lexeme) : Option (List Lexeme × List Lexeme) :=
  match ls with
  | [] => none
  | l :: ls =>
    if l.isIdent && !nonTypeWords.contains (Text.lowerAscii l.text) then
      match _ha : typeArguments? ls with
      | none => none
      | some (arguments, dot :: rest) =>
        if dot.isPunct "." && startsWithIdent rest then
          (typeName? rest).map fun (more, rest) => (l :: arguments ++ dot :: more, rest)
        else some (l :: arguments, dot :: rest)
      | some (arguments, []) => some (l :: arguments, [])
    else none
termination_by ls.length
decreasing_by
  have := length_le_of_typeArguments _ha
  simp at this ⊢
  omega

/-- A type reference. -/
structure TypeRef where
  /-- The lexemes of the element type, with its nullable mark. -/
  parts : List Lexeme
  levels : List ArrayLevel

/-- The element type of the reference. -/
def TypeRef.element (t : TypeRef) : ElementType :=
  .ofParts (withoutNewlines t.parts) false

/-- The bracketed lists of bounds that the row starts with, and what follows them. -/
def bounds? (ls : List Lexeme) : Option (List ArrayLevel × List Lexeme) :=
  arrayLevels .parens (fun ls => !startsTypeArguments ls) ls

/-- The type reference that the row starts with, and what follows it. -/
def typeRef? (ls : List Lexeme) : Option (TypeRef × List Lexeme) :=
  (typeName? ls).bind fun (name, rest) =>
    let mark := if startsWithPunct "?" rest then rest.take 1 else []
    (bounds? (rest.drop mark.length)).map fun (levels, rest) => (⟨name ++ mark, levels⟩, rest)

end ZeroAlloc.VisualBasic

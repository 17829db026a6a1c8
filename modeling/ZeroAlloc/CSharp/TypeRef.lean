import ZeroAlloc.Site
set_option autoImplicit false

/-! # Type references in C#

Where a type can stand, its name is read by shape alone: dotted or `::`-qualified names with type
arguments, or a tuple in brackets, then nullable and pointer marks, then array levels. -/

namespace ZeroAlloc.CSharp

/-- Words that can never begin a type. -/
def nonTypeWords : List String := [
  "new", "return", "this", "base", "typeof", "sizeof", "nameof", "default", "null", "true",
  "false", "await", "throw", "is", "as", "in", "out", "ref", "stackalloc", "checked",
  "unchecked", "case", "goto", "yield", "else", "using", "namespace", "class", "struct",
  "interface", "enum", "record", "delegate", "public", "private", "protected", "internal",
  "static", "readonly", "const", "params", "operator", "implicit", "explicit", "where", "if",
  "while", "for", "foreach", "do", "switch", "lock", "fixed", "unsafe", "try", "catch",
  "finally", "break", "continue", "abstract", "virtual", "override", "sealed", "extern",
  "volatile", "async", "partial", "event", "global"]

/-- The punctuation that may stand between angle brackets besides names. -/
def isTypeArgumentMark (l : Lexeme) : Bool :=
  [",", ".", "?", "[", "]", "(", ")", "*", ":"].any l.isPunct

/-- The rest of a list of type arguments, `depth` further angle brackets in, through its end; and
what follows it. There is none if something stands in it that no type argument holds. -/
def typeArgumentsFrom? (depth : Nat) : List Lexeme → Option (List Lexeme × List Lexeme)
  | [] => none
  | l :: ls =>
    if l.isPunct ">" then
      match depth with
      | 0 => some ([l], ls)
      | depth + 1 => (typeArgumentsFrom? depth ls).map fun (taken, rest) => (l :: taken, rest)
    else if l.isPunct "<" then
      (typeArgumentsFrom? (depth + 1) ls).map fun (taken, rest) => (l :: taken, rest)
    else if l.isIdent || isTypeArgumentMark l then
      (typeArgumentsFrom? depth ls).map fun (taken, rest) => (l :: taken, rest)
    else none

/-- The type arguments that the row starts with, possibly none at all, and what follows them. -/
def typeArguments? : List Lexeme → Option (List Lexeme × List Lexeme)
  | [] => some ([], [])
  | l :: ls =>
    if l.isPunct "<" then
      (typeArgumentsFrom? 0 ls).map fun (taken, rest) => (l :: taken, rest)
    else some ([], l :: ls)

/-- A point or two colons between two parts of a name, and the row from the second part on. -/
def qualifier? : List Lexeme → Option (List Lexeme × List Lexeme)
  | dot :: name :: ls =>
    if dot.isPunct "." && name.isIdent then some ([dot], name :: ls)
    else
      match ls with
      | name' :: ls' =>
        if dot.isPunct ":" && name.isPunct ":" && name'.isIdent then
          some ([dot, name], name' :: ls')
        else none
      | [] => none
  | _ => none

/-- Whether a part of a type name can start with the lexeme, given what follows it. The word
`global` is one only in front of a colon. -/
def isTypeWord (l : Lexeme) (ls : List Lexeme) : Bool :=
  (l.isIdent && !nonTypeWords.contains l.text) ||
    (l.text == "global" && ls.head?.any (·.isPunct ":"))

theorem length_lt_of_typeArgumentsFrom {depth : Nat} {ls taken rest : List Lexeme}
    (h : typeArgumentsFrom? depth ls = some (taken, rest)) : rest.length < ls.length := by
  induction ls generalizing depth taken with
  | nil => simp [typeArgumentsFrom?] at h
  | cons l ls ih =>
    have step {d : Nat}
        (h : (typeArgumentsFrom? d ls).map (fun (taken, rest) => (l :: taken, rest)) =
          some (taken, rest)) : rest.length < (l :: ls).length := by
      obtain ⟨⟨t, r⟩, ht, he⟩ := Option.map_eq_some_iff.1 h
      cases he
      exact Nat.lt_succ_of_lt (ih ht)
    unfold typeArgumentsFrom? at h
    split at h
    · split at h
      · cases h
        simp
      · exact step h
    · split at h
      · exact step h
      · split at h
        · exact step h
        · cases h

theorem length_le_of_typeArguments {ls taken rest : List Lexeme}
    (h : typeArguments? ls = some (taken, rest)) : rest.length ≤ ls.length := by
  cases ls with
  | nil => simp_all [typeArguments?]
  | cons l ls =>
    rw [typeArguments?] at h
    split at h
    · obtain ⟨⟨t, r⟩, ht, he⟩ := Option.map_eq_some_iff.1 h
      cases he
      exact Nat.le_of_lt (Nat.lt_succ_of_lt (length_lt_of_typeArgumentsFrom ht))
    · cases h
      simp

theorem length_le_of_qualifier {ls taken rest : List Lexeme}
    (h : qualifier? ls = some (taken, rest)) : rest.length ≤ ls.length := by
  unfold qualifier? at h
  split at h
  · split at h
    · cases h
      simp
    · split at h
      · split at h
        · cases h
          simp
        · cases h
      · cases h
  · cases h

/-- The type name that the row starts with, and what follows it. -/
def typeName? (ls : List Lexeme) : Option (List Lexeme × List Lexeme) :=
  match ls with
  | [] => none
  | l :: ls =>
    if isTypeWord l ls then
      match _ha : typeArguments? ls with
      | none => none
      | some (arguments, rest) =>
        match _hq : qualifier? rest with
        | none => some (l :: arguments, rest)
        | some (mark, next) =>
          (typeName? next).map fun (more, rest) => (l :: arguments ++ mark ++ more, rest)
    else none
termination_by ls.length
decreasing_by
  have := length_le_of_typeArguments _ha
  have := length_le_of_qualifier _hq
  simp
  omega

/-- The tuple type that the row starts with, and what follows it. -/
def tuple? (ls : List Lexeme) : Option (List Lexeme × List Lexeme) :=
  (BracketPair.parens.group? ls).map fun (inside, rest) => (ls.take (inside.length + 2), rest)

/-- A type reference. -/
structure TypeRef where
  /-- The lexemes of the element type, with its nullable and pointer marks. -/
  parts : List Lexeme
  isPointer : Bool
  levels : List ArrayLevel

/-- The element type of the reference. -/
def TypeRef.element (t : TypeRef) : ElementType :=
  .ofParts (withoutNewlines t.parts) t.isPointer

/-- The type reference that the row starts with, and what follows it. -/
def typeRef? (ls : List Lexeme) : Option (TypeRef × List Lexeme) :=
  let name :=
    if ls.head?.any (·.isPunct "(") then tuple? ls else typeName? ls
  name.bind fun (name, rest) =>
    let isMark (l : Lexeme) := l.isPunct "?" || l.isPunct "*"
    let marks := rest.takeWhile isMark
    (arrayLevels .squares (fun _ => true) (rest.dropWhile isMark)).map fun (levels, rest) =>
      (⟨name ++ marks, marks.any (·.isPunct "*"), levels⟩, rest)

end ZeroAlloc.CSharp

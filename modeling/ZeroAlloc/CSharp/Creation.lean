import ZeroAlloc.CSharp.TypeRef
import ZeroAlloc.Place
set_option autoImplicit false

/-! # Array creation in C#

Arrays are created by `new`, by an initializer list on a declared array, and by a call that leaves
out the elements of a parameter array. Each recogniser looks at one place; the sites of a file are
what they find at all places, in order of position. -/

namespace ZeroAlloc.CSharp

/-! ## Creation expressions -/

/-- The list of element expressions that a row starts with, and what follows it. -/
def elementList? (ls : List Lexeme) : Option (List Lexeme × List Lexeme) :=
  if startsWithPunct "[" ls then BracketPair.squares.group? ls else BracketPair.braces.group? ls

/-- `new[] { … }`, whose element type is inferred; the row starts behind `new`. -/
def inferredCreation? (ls : List Lexeme) : Option Site :=
  (BracketPair.squares.group? ls).bind fun (inside, rest) =>
    let level := ArrayLevel.ofContents inside
    if level.hasSizes then none
    else
      (BracketPair.braces.group? rest).map fun (contents, _) =>
        let opening := inside.length + 3
        { first := 0
          last := opening + contents.length + 1
          origin := .explicit
          inAttribute := false
          element := .inferred
          allocated := level
          inner := []
          initializer := some ⟨opening, contents⟩
          malformed := false }

/-- `new T[n]`, with or without an initializer list; the row starts with `new`. -/
def typedCreation? (ls : List Lexeme) : Option Site :=
  (typeRef? ls.tail).bind fun (type, rest) =>
    match type.levels with
    | [] => none
    | allocated :: inner =>
      let site (initializer : Option Initializer) (rest : List Lexeme) : Site :=
        let width := ls.length - rest.length
        { first := 0
          last := width - 1
          origin := .explicit
          inAttribute := false
          element := type.element.readWith (ls.take width)
          allocated
          inner
          initializer
          malformed := inner.any ArrayLevel.hasSizes }
      if startsWithPunct "\x7b" rest then
        (BracketPair.braces.group? rest).map fun (contents, after) =>
          site (some ⟨ls.length - rest.length, contents⟩) after
      else some (site none rest)

/-- The creation expression that the row starts with. -/
def creation? (ls : List Lexeme) : Option Site :=
  match ls with
  | [] => none
  | l :: rest =>
    if l.isWord "new" then
      if startsWithPunct "[" rest then inferredCreation? rest else typedCreation? ls
    else none

/-! ## Declarations with initializer lists -/

theorem length_lt_of_elementList {ls inside rest : List Lexeme}
    (h : elementList? ls = some (inside, rest)) : rest.length < ls.length := by
  unfold elementList? at h
  split at h <;> exact BracketPair.length_lt_of_group h

/-- The initializer lists of the declarators that the row starts with. The row starts `position`
lexemes behind the place of the declaration. -/
def declaratorSites (element : ElementType) (allocated : ArrayLevel) (inner : List ArrayLevel)
    (position : Nat) (ls : List Lexeme) : List Site :=
  match ls with
  | name :: mark :: value =>
    if !name.isIdent then []
    else if mark.isPunct "=" then
      match _h : elementList? value with
      | none => []
      | some (contents, rest) =>
        let opening := position + 2
        let last := opening + contents.length + 1
        { first := opening
          last
          origin := .implicitInitializer
          inAttribute := false
          element := element.readWith contents
          allocated
          inner
          initializer := some ⟨opening, contents⟩
          malformed := false } ::
        match rest with
        | comma :: rest =>
          if comma.isPunct "," then declaratorSites element allocated inner (last + 2) rest else []
        | [] => []
    else if mark.isPunct "," then declaratorSites element allocated inner (position + 2) value
    else []
  | _ => []
termination_by ls.length
decreasing_by
  · have := length_lt_of_elementList _h
    simp only [List.length_cons] at this ⊢
    omega
  · simp only [List.length_cons]
    omega

/-- A declared name may follow a nullable mark on the array itself. -/
def skipNullableMark (ls : List Lexeme) : List Lexeme :=
  if startsWithPunct "?" ls && startsWithIdent ls.tail then ls.tail else ls

/-- The initializer lists of the declaration that the row starts with: `T[] a = { }, b = { };`. -/
def declarationSites (before ls : List Lexeme) : List Site :=
  if startsWithText [".", "new", ":"] before then []
  else
    match typeRef? ls with
    | none => []
    | some (type, rest) =>
      match type.levels with
      | [] => []
      | allocated :: inner =>
        if type.levels.any ArrayLevel.hasSizes then []
        else
          let declarators := skipNullableMark rest
          declaratorSites type.element allocated inner (ls.length - declarators.length) declarators

/-! ## Parameter arrays -/

/-- The parameter array that the row declares: `params T[] xs`. -/
def paramArray? (before ls : List Lexeme) : Option ParamArray :=
  match ls with
  | [] => none
  | l :: ls =>
    if l.isWord "params" then
      match BracketPair.parens.enclosing? before with
      | some (parameters, method :: _) =>
        if method.isIdent then
          match typeRef? ls with
          | some (type, _) =>
            match type.levels with
            | [] => none
            | allocated :: inner =>
              some ⟨method.text, commasBefore 0 parameters, type.element, allocated, inner⟩
          | none => none
        else none
      | _ => none
    else none

/-- Words after which a name in front of a bracket is still a call. -/
def callWords : List String := ["return", "await", "throw", "else", "in", "yield"]

/-- Whether a name at a place can be the name of a called method. -/
def canCallAfter (before : List Lexeme) : Bool :=
  match before with
  | [] => true
  | l :: _ => !l.isIdent || callWords.contains l.text

/-- The call that the row starts with, if it passes nothing for one of the parameter arrays. -/
def paramArrayCall? (arrays : List ParamArray) (before ls : List Lexeme) : Option Site :=
  match ls with
  | [] => none
  | l :: ls =>
    if l.isIdent && canCallAfter before then
      match BracketPair.parens.group? ls with
      | some (inside, _) =>
        if inside.any (·.text == "params") then none
        else
          (arrays.find? fun a => a.method == l.text && a.fixed == argumentCount inside).map
            (·.callSite inside)
      | none => none
    else none

/-! ## Attributes -/

/-- Whether a bracketed section is an attribute section, told from the lexemes around it. `adjoins`
says whether an attribute section ends directly before it. -/
def isAttributeSection (before after : List Lexeme) (adjoins : Bool) : Bool :=
  match before with
  | [] => opensDeclaration after
  | l :: _ =>
    if [";", "\x7b", "\x7d"].contains l.text then opensDeclaration after
    else if l.text == "]" then adjoins
    else if l.text == "(" || l.text == "," then startsWithIdent after || startsWithPunct "[" after
    else false
where
  /-- Whether the lexemes behind a bracketed list can go on with a declaration. -/
  opensDeclaration (after : List Lexeme) : Bool :=
    !(["=", ".", ";", ",", ")"].any fun p => startsWithPunct p after)

/-- The attribute section that the row starts with: the number of lexemes in its brackets. -/
def attributeSection? (before ls : List Lexeme) (adjoins : Bool) : Option Nat :=
  if startsWithIdent ls.tail && !startsWithText ["new"] ls.tail then
    match BracketPair.squares.group? ls with
    | some (inside, after) =>
      if isAttributeSection before after adjoins then some inside.length else none
    | none => none
  else none

/-- The attribute sections of a row, by the indices of their brackets. `previous` is the index of
the bracket that ends the section before. -/
def attributeSections (before : List Lexeme) (index : Nat) (previous : Option Nat) :
    List Lexeme → List (Nat × Nat)
  | [] => []
  | l :: ls =>
    match attributeSection? before (l :: ls) (previous.any (· + 1 == index)) with
    | some width =>
      let last := index + width + 1
      (index, last) :: attributeSections (l :: before) (index + 1) (some last) ls
    | none => attributeSections (l :: before) (index + 1) previous ls

/-! ## Sites -/

/-- The sites of a file, in order of position. -/
def sites (ls : List Lexeme) : List Site :=
  let arrays := atEachPlace (fun before here => (paramArray? before here).toList) [] ls
  let found := atEachPlace (fun before here =>
    ((creation? here).toList ++ declarationSites before here ++
      (paramArrayCall? arrays before here).toList).map fun s => s.shift before.length) [] ls
  (found.map (Site.markAttribute (attributeSections [] 0 none ls))).mergeSort Site.comesBefore

end ZeroAlloc.CSharp

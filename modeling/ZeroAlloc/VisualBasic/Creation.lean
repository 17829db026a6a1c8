import ZeroAlloc.VisualBasic.TypeRef
set_option autoImplicit false

/-! # Array creation in Visual Basic

Arrays are created by `New` with an initializer list, by an initializer list on a declared array,
and by a call that leaves out the elements of a parameter array. `New` without a list calls a
constructor. -/

namespace ZeroAlloc.VisualBasic

/-! ## Creation expressions -/

/-- The creation expression that the row starts with: `New T(bound) { }`. -/
def creation? (ls : List Lexeme) : Option Site :=
  if startsWithKeyword "new" ls then
    (typeRef? ls.tail).bind fun (type, rest) =>
      match type.levels with
      | [] => none
      | allocated :: inner =>
        (BracketPair.braces.group? rest).map fun (contents, after) =>
          let width := ls.length - after.length
          { first := 0
            last := width - 1
            origin := .explicit
            inAttribute := false
            element := type.element.readWith (ls.take width)
            allocated
            inner
            initializer := some ⟨ls.length - rest.length, withoutNewlines contents⟩
            malformed := inner.any ArrayLevel.hasSizes }
  else none

/-! ## Declarations with initializer lists -/

/-- Words that declare a member, in lower case. A bracketed list on the name of a member holds its
parameters. -/
def memberWords : List String := ["property", "function", "sub", "event", "operator"]

/-- The bracketed lists directly before a place, the last one first, and the lexemes before them.
There are none if a list has no opening bracket. -/
def levelsBefore? (before : List Lexeme) : Option (List ArrayLevel × List Lexeme) :=
  match before with
  | [] => some ([], [])
  | l :: ls =>
    if l.isPunct ")" then
      match _h : BracketPair.parens.enclosing? ls with
      | some (inside, outside) =>
        (levelsBefore? outside).map fun (levels, rest) =>
          (ArrayLevel.ofContents inside :: levels, rest)
      | none => none
    else some ([], l :: ls)
termination_by before.length
decreasing_by
  obtain ⟨⟨i, r⟩, hg, he⟩ := Option.map_eq_some_iff.1 _h
  cases he
  obtain ⟨_, _, hs⟩ := BracketPair.eq_append_of_untilClose hg
  rw [hs]
  simp
  omega

/-- The bounds that a declared name carries in front of its type, as in `Dim arr() As Integer`. -/
def nameLevels? (before : List Lexeme) : Option (List ArrayLevel) :=
  (levelsBefore? before).bind fun (levels, outside) =>
    if levels.isEmpty then some []
    else
      match outside with
      | name :: outside =>
        if !name.isIdent then none
        else if outside.head?.any fun l => memberWords.contains (Text.lowerAscii l.text) then
          some []
        else some levels.reverse
      | [] => none

/-- The initializer list of the declaration whose word `As` the row starts with. Line breaks may
stand behind the equals sign. -/
def declarationSite? (before ls : List Lexeme) : Option Site :=
  if startsWithKeyword "as" ls && !startsWithKeyword "new" ls.tail then
    match typeRef? ls.tail with
    | some (type, mark :: value) =>
      let list := value.dropWhile Lexeme.isNewline
      if mark.isPunct "=" && startsWithPunct "\x7b" list then
        match nameLevels? before with
        | some nameLevels =>
          match nameLevels ++ type.levels, BracketPair.braces.group? list with
          | allocated :: inner, some (contents, rest) =>
            if (allocated :: inner).any ArrayLevel.hasSizes then none
            else
              let opening := ls.length - list.length
              some {
                first := opening
                last := ls.length - rest.length - 1
                origin := .implicitInitializer
                inAttribute := false
                element := type.element.readWith contents
                allocated
                inner
                initializer := some ⟨opening, withoutNewlines contents⟩
                malformed := false }
          | _, _ => none
        | none => none
      else none
    | _ => none
  else none

/-! ## Parameter arrays -/

/-- The parameter array that the row declares: `ParamArray xs As T()` or `ParamArray xs() As T`. -/
def paramArray? (before ls : List Lexeme) : Option ParamArray :=
  if startsWithKeyword "paramarray" ls then
    match BracketPair.parens.enclosing? before with
    | some (parameters, method :: _) =>
      if method.isIdent then
        match arrayLevels .parens (fun _ => true) (ls.drop 2) with
        | some (nameLevels, rest) =>
          if startsWithKeyword "as" rest then
            match typeRef? rest.tail with
            | some (type, _) =>
              match nameLevels ++ type.levels with
              | [] => none
              | allocated :: inner =>
                some ⟨method.text, commasBefore 0 parameters, type.element, allocated, inner⟩
            | none => none
          else none
        | none => none
      else none
    | _ => none
  else none

/-- Words after which a name in front of a bracket is still a call, in lower case. -/
def callWords : List String := [
  "call", "return", "then", "else", "await", "not", "and", "or", "andalso", "orelse", "xor",
  "in", "to", "is", "isnot", "do", "while", "until", "case"]

/-- Whether a name at a place can be the name of a called method. -/
def canCallAfter (before : List Lexeme) : Bool :=
  match before with
  | [] => true
  | l :: _ => !l.isIdent || callWords.contains (Text.lowerAscii l.text)

/-- The call that the row starts with, if it passes nothing for one of the parameter arrays. -/
def paramArrayCall? (arrays : List ParamArray) (before ls : List Lexeme) : Option Site :=
  match ls with
  | [] => none
  | l :: ls =>
    if l.isIdent && canCallAfter before then
      match BracketPair.parens.group? ls with
      | some (inside, _) =>
        if inside.any (isKeyword · "paramarray") then none
        else
          (arrays.find? fun a =>
            Text.equalIgnoringCase a.method l.text && a.fixed == argumentCount inside).map
              (·.callSite inside)
      | none => none
    else none

/-! ## Attributes -/

/-- Whether a statement can start at a place. -/
def startsStatementAfter (before : List Lexeme) : Bool :=
  match before with
  | [] => true
  | l :: _ => l.isNewline || l.isPunct ":"

/-- The number of lexemes up to the bracket that closes an attribute block on the same line, and
what follows it; `depth` other brackets are open. -/
def attributeEnd? (depth : Nat) : List Lexeme → Option (Nat × List Lexeme)
  | [] => none
  | l :: ls =>
    let more (depth : Nat) := (attributeEnd? depth ls).map fun (width, rest) => (width + 1, rest)
    if l.isNewline then none
    else if l.isPunct "(" || l.isPunct "\x7b" then more (depth + 1)
    else if l.isPunct ")" || l.isPunct "\x7d" then more (depth - 1)
    else if l.isPunct ">" && depth == 0 then some (0, ls)
    else more depth

/-- The attribute block that the row starts with: the number of lexemes in its brackets. -/
def attributeBlock? (before ls : List Lexeme) : Option Nat :=
  if startsWithPunct "<" ls && startsWithIdent ls.tail then
    match attributeEnd? 0 ls.tail with
    | some (width, after) =>
      if startsStatementAfter before ||
          ((startsWithPunct "(" before || startsWithPunct "," before) && startsWithIdent after) then
        some width
      else none
    | none => none
  else none

/-- The attribute blocks of a row, by the indices of their brackets. -/
def attributeBlocks (before : List Lexeme) (index : Nat) : List Lexeme → List (Nat × Nat)
  | [] => []
  | l :: ls =>
    ((attributeBlock? before (l :: ls)).map fun width => (index, index + width + 1)).toList ++
      attributeBlocks (l :: before) (index + 1) ls

/-! ## Sites -/

/-- The sites of a file, in order of position. -/
def sites (ls : List Lexeme) : List Site :=
  let arrays := atEachPlace (fun before here => (paramArray? before here).toList) [] ls
  let found := atEachPlace (fun before here =>
    ((creation? here).toList ++ (declarationSite? before here).toList ++
      (paramArrayCall? arrays before here).toList).map fun s => s.shift before.length) [] ls
  (found.map (Site.markAttribute (attributeBlocks [] 0 ls))).mergeSort Site.comesBefore

end ZeroAlloc.VisualBasic

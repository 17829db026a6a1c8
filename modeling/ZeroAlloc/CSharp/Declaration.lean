import ZeroAlloc.CSharp.TypeRef
import ZeroAlloc.Fold
import ZeroAlloc.Place
set_option autoImplicit false

/-! # Declarations in C#

Imports, named constants and generic methods of a file. -/

namespace ZeroAlloc.CSharp

/-! ## Imports -/

/-- The name without a leading `global::`. -/
def withoutGlobal (name : String) : String :=
  let mark := "global::".toList
  if mark.isPrefixOf name.toList then String.ofList (name.toList.drop mark.length) else name

/-- Whether a lexeme can be part of an imported name. -/
def isImportPart (l : Lexeme) : Bool :=
  l.isIdent || l.isPunct "." || l.isPunct ":"

/-- The directive whose word `using` has the given index; the row starts behind the word. -/
def import? (index : Nat) (ls : List Lexeme) : Option Import :=
  let clause := (splitAlias ls).2
  let name := clause.takeWhile isImportPart
  let rest := clause.dropWhile isImportPart
  if startsWithText ["static"] ls || name.isEmpty || !startsWithPunct ";" rest then none
  else
    some {
      path := withoutGlobal (joined name)
      aliasName := (splitAlias ls).1
      first := index
      last := index + 1 + (ls.length - rest.length) }

/-- Whether a directive can start at a place. -/
def canImportAfter (before : List Lexeme) : Bool :=
  match before with
  | [] => true
  | l :: _ => [";", "\x7d", "]", "global"].contains l.text

/-- The imports that a row goes on with, inside `depth` braces: those outside all braces. -/
def importsFrom (before : List Lexeme) (index depth : Nat) : List Lexeme → List Import
  | [] => []
  | l :: ls =>
    let more (depth : Nat) := importsFrom (l :: before) (index + 1) depth ls
    if l.isPunct "\x7b" then more (depth + 1)
    else if l.isPunct "\x7d" then more (depth - 1)
    else if depth == 0 && l.isWord "using" && canImportAfter before then
      (import? index ls).toList ++ more depth
    else more depth

/-- The imports of a file. -/
def imports (ls : List Lexeme) : List Import :=
  importsFrom [] 0 0 ls

/-! ## Constants -/

/-- Whether a lexeme ends the definition of a constant. -/
def endsDefinition (depth : Nat) (l : Lexeme) : Bool :=
  depth == 0 && (l.isPunct "," || l.isPunct ";")

/-- The constants that a row of declarators declares. -/
def constantDeclarators (ls : List Lexeme) : List (String × List Lexeme) :=
  match ls with
  | name :: mark :: value =>
    if name.isIdent && mark.isPunct "=" then
      let split := definition endsDefinition 0 value
      (name.text, withoutNewlines split.1) ::
        match _h : split.2 with
        | comma :: rest => if comma.isPunct "," then constantDeclarators rest else []
        | [] => []
    else []
  | _ => []
termination_by ls.length
decreasing_by
  have h := length_definition_le endsDefinition 0 value
  simp only [split] at _h
  rw [_h] at h
  simp at h ⊢
  omega

/-- The constants of a file. -/
def constants (ls : List Lexeme) : Constants :=
  .ofDeclarations <| atEachPlace (fun _ here =>
    if here.head?.any (·.isWord "const") then
      match typeRef? here.tail with
      | some (_, rest) => constantDeclarators rest
      | none => []
    else []) [] ls

/-! ## Generic methods -/

/-- What a brace opens. -/
inductive Scope where
  | namespaceBody (name : String)
  | typeBody (name : String)
  | block

/-- What is open at a place. -/
structure Nesting where
  /-- The open braces, innermost first. -/
  scopes : List Scope
  /-- What the next brace opens, if a declaration has announced it. -/
  announced : Option Scope
  /-- The namespace that the file declares for all of its rest. -/
  fileNamespace : Option String

namespace Nesting

/-- The name of the innermost type. -/
def typeName? (n : Nesting) : Option String :=
  n.scopes.findSome? fun
    | .typeBody name => some name
    | _ => none

/-- The full name of the namespace. -/
def namespaceName (n : Nesting) : String :=
  let inner := n.scopes.reverse.filterMap fun
    | .namespaceBody name => some name
    | _ => none
  ".".intercalate (n.fileNamespace.toList ++ inner)

/-- What is open behind a lexeme, which the row starts with. -/
def after (n : Nesting) (ls : List Lexeme) : Nesting :=
  match ls with
  | [] => n
  | l :: ls =>
    if l.isPunct "\x7b" then
      { n with scopes := n.announced.getD .block :: n.scopes, announced := none }
    else if l.isPunct "\x7d" then { n with scopes := n.scopes.tail }
    else if l.isPunct ";" then { n with announced := none }
    else if l.isWord "namespace" then
      let isPart (l : Lexeme) := l.isIdent || l.isPunct "."
      let name := joined (ls.takeWhile isPart)
      if startsWithPunct ";" (ls.dropWhile isPart) then { n with fileNamespace := some name }
      else { n with announced := some (.namespaceBody name) }
    else if ["class", "struct", "interface", "record"].any l.isWord then
      match ls with
      | name :: _ => if name.isIdent then { n with announced := some (.typeBody name.text) } else n
      | [] => n
    else n

end Nesting

/-- Whether a name in front of type arguments is declared at a place: a return type stands before
it, not an operator, a point or a keyword. -/
def declaresAfter (before : List Lexeme) : Bool :=
  match before with
  | [] => false
  | l :: _ =>
    [">", "]", "?"].contains l.text || (l.isIdent && !nonTypeWords.contains l.text)

/-- The generic method that the row declares. -/
def genericMethod? (n : Nesting) (before ls : List Lexeme) : Option GenericMethod :=
  match ls with
  | [] => none
  | l :: ls =>
    let isHeading := l.isWord "namespace" ||
      (["class", "struct", "interface", "record"].any l.isWord && startsWithIdent ls)
    if l.isIdent && !isHeading && startsWithPunct "<" ls && declaresAfter before then
      match n.typeName?, typeArguments? ls with
      | some typeName, some (_, rest) =>
        if startsWithPunct "(" rest then some ⟨n.namespaceName, typeName, l.text⟩ else none
      | _, _ => none
    else none

/-- The generic methods that a row goes on with. -/
def genericMethodsFrom (n : Nesting) (before : List Lexeme) : List Lexeme → List GenericMethod
  | [] => []
  | l :: ls =>
    (genericMethod? n before (l :: ls)).toList ++
      genericMethodsFrom (n.after (l :: ls)) (l :: before) ls

/-- The generic methods that a file declares in its types. -/
def genericMethods (ls : List Lexeme) : List GenericMethod :=
  genericMethodsFrom ⟨[], none, none⟩ [] ls

end ZeroAlloc.CSharp

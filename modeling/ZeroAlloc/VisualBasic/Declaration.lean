import ZeroAlloc.Fold
import ZeroAlloc.VisualBasic.Creation
set_option autoImplicit false

/-! # Declarations in Visual Basic

Imports, named constants and generic methods of a file. -/

namespace ZeroAlloc.VisualBasic

/-- The name without a leading `Global.`, in any case. -/
def withoutGlobal (name : String) : String :=
  let mark := "global."
  if Text.lowerAscii (String.ofList (name.toList.take mark.length)) == mark then
    String.ofList (name.toList.drop mark.length)
  else name

/-- Whether a lexeme can be part of a dotted name. -/
def isNamePart (l : Lexeme) : Bool :=
  l.isIdent || l.isPunct "."

/-! ## Imports -/

/-- The clause of an import statement that a row starts with: what it imports, if anything, and the
row behind it. The clause starts at the given index. There is none if its type arguments are left
open. -/
def importClause? (index : Nat) (ls : List Lexeme) : Option (Option Import × List Lexeme) :=
  if startsWithPunct "<" ls then
    -- an XML namespace
    some (none, (ls.dropWhile fun l => !l.isPunct ">").tail)
  else
    let clause := (splitAlias ls).2
    (typeArguments? (clause.dropWhile isNamePart)).map fun (arguments, rest) =>
      let name := clause.takeWhile isNamePart ++ arguments
      (if name.isEmpty then none
       else
        some {
          path := withoutGlobal (joined name)
          aliasName := (splitAlias ls).1
          first := index
          last := index + (ls.length - rest.length) - 1 }, rest)

theorem length_le_of_importClause {index : Nat} {ls rest : List Lexeme} {i : Option Import}
    (h : importClause? index ls = some (i, rest)) : rest.length ≤ ls.length := by
  unfold importClause? at h
  split at h
  · cases h
    have := (List.dropWhile_sublist (l := ls) fun l => !l.isPunct ">").length_le
    simp only [List.length_tail]
    omega
  · obtain ⟨⟨a, r⟩, ha, he⟩ := Option.map_eq_some_iff.1 h
    cases he
    have h₁ := length_le_of_typeArguments ha
    have h₂ := (List.dropWhile_sublist (l := (splitAlias ls).2) isNamePart).length_le
    have h₃ := length_splitAlias_le ls
    omega

/-- The imports of a statement whose clauses the row starts with. -/
def importClauses (index : Nat) (ls : List Lexeme) : List Import :=
  match _h : importClause? index ls with
  | none => []
  | some (found, rest) =>
    found.toList ++
      match rest with
      | comma :: more =>
        if comma.isPunct "," then importClauses (index + (ls.length - more.length)) more else []
      | [] => []
termination_by ls.length
decreasing_by
  have := length_le_of_importClause _h
  simp at this
  omega

/-- The imports of a file. -/
def imports (ls : List Lexeme) : List Import :=
  atEachPlace (fun before here =>
    if startsWithKeyword "imports" here && startsStatementAfter before then
      importClauses (before.length + 1) here.tail
    else []) [] ls

/-! ## Constants -/

/-- Whether a lexeme ends the definition of a constant. -/
def endsDefinition (depth : Nat) (l : Lexeme) : Bool :=
  l.isNewline || (depth == 0 && (l.isPunct "," || l.isPunct ":"))

/-- Whether a lexeme ends the name and type of a declared constant. -/
def endsDeclarator (l : Lexeme) : Bool :=
  l.isNewline || l.isPunct "="

/-- The constants that a row of declarators declares. -/
def constantDeclarators (ls : List Lexeme) : List (String × List Lexeme) :=
  match ls with
  | [] => []
  | name :: type =>
    if name.isIdent then
      match _ht : type.dropWhile (!endsDeclarator ·) with
      | [] => []
      | mark :: value =>
        if mark.isPunct "=" then
          let split := definition endsDefinition 0 value
          (Text.lowerAscii name.text, withoutNewlines split.1) ::
            match _h : split.2 with
            | comma :: rest => if comma.isPunct "," then constantDeclarators rest else []
            | [] => []
        else []
    else []
termination_by ls.length
decreasing_by
  have h := length_definition_le endsDefinition 0 value
  simp only [split] at _h
  rw [_h] at h
  have ht := (List.dropWhile_sublist (l := type) (!endsDeclarator ·)).length_le
  rw [_ht] at ht
  simp at h ht ⊢
  omega

/-- The constants of a file, by their names in lower case. -/
def constants (ls : List Lexeme) : Constants :=
  .ofDeclarations <| atEachPlace (fun _ here =>
    if startsWithKeyword "const" here then constantDeclarators here.tail else []) [] ls

/-! ## Generic methods -/

/-- A namespace or type that is open at a place. -/
inductive Scope where
  | namespaceBody (name : String)
  | typeBody (name : String)

/-- The name of a namespace. -/
def Scope.namespaceName? : Scope → Option String
  | namespaceBody name => some name
  | typeBody _ => none

/-- The name of a type. -/
def Scope.typeName? : Scope → Option String
  | namespaceBody _ => none
  | typeBody name => some name

/-- Words that open the body of a type, in lower case. -/
def typeWords : List String := ["class", "structure", "module", "interface"]

/-- The scopes that are open behind a lexeme, innermost first. The lexeme starts the row; `word` and
`previous` are its text and that of the one before, in lower case. An `End` closes the innermost
scope of its kind with all that is open in it. -/
def scopesAfter (scopes : List Scope) (before ls : List Lexeme) : List Scope :=
  match ls with
  | [] => scopes
  | l :: ls =>
    let word := Text.lowerAscii l.text
    let previous := (before.head?.map fun l => Text.lowerAscii l.text).getD ""
    if !l.isIdent then scopes
    else if word == "namespace" then
      if previous == "end" then (scopes.dropWhile (·.namespaceName?.isNone)).tail
      else .namespaceBody (withoutGlobal (joined (ls.takeWhile isNamePart))) :: scopes
    else if typeWords.contains word then
      if previous == "end" then (scopes.dropWhile (·.typeName?.isNone)).tail
      else
        match ls with
        | name :: _ =>
          if name.isIdent && previous != "as" && !startsWithPunct "." before then
            .typeBody name.text :: scopes
          else scopes
        | [] => scopes
    else scopes

/-- The generic method that the row declares. -/
def genericMethod? (scopes : List Scope) (before ls : List Lexeme) : Option GenericMethod :=
  match ls with
  | word :: name :: ls =>
    let follows := ["end", "exit", "declare"].any fun w =>
      before.head?.any fun l => Text.lowerAscii l.text == w
    if (isKeyword word "function" || isKeyword word "sub") && !follows && name.isIdent &&
        startsTypeArguments ls then
      (scopes.findSome? Scope.typeName?).map fun typeName =>
        ⟨".".intercalate (scopes.reverse.filterMap Scope.namespaceName?), typeName, name.text⟩
    else none
  | _ => none

/-- The generic methods that a row goes on with. -/
def genericMethodsFrom (scopes : List Scope) (before : List Lexeme) :
    List Lexeme → List GenericMethod
  | [] => []
  | l :: ls =>
    (genericMethod? scopes before (l :: ls)).toList ++
      genericMethodsFrom (scopesAfter scopes before (l :: ls)) (l :: before) ls

/-- The generic methods that a file declares in its types. -/
def genericMethods (ls : List Lexeme) : List GenericMethod :=
  genericMethodsFrom [] [] ls

end ZeroAlloc.VisualBasic

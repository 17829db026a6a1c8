import ZeroAlloc.Proofs.Enclosure
import ZeroAlloc.VisualBasic.Declaration
set_option autoImplicit false

/-! # Scopes in Visual Basic

Words open scopes, and `End` with one of them ends one. The open scopes of the search for generic
methods follow these turns (`map_enclosure_scopesAfter`), so the search finds the methods with the
scopes around them (`genericMethods_eq`). -/

namespace ZeroAlloc.VisualBasic

/-! ## Headings -/

/-- Whether the lexeme in front of a place spells a word, in any case. -/
def followsWord (before : List Lexeme) (word : String) : Bool :=
  before.head?.any fun l => Text.lowerAscii l.text == word

/-- A namespace or type opens at its word and ends at the word behind `End`. Behind `As` or a point
the word of a type opens none. -/
def turn (before : List Lexeme) : (here : List Lexeme) → Turn
  | [] => .stays
  | l :: ls =>
    if isKeyword l "namespace" then
      if followsWord before "end" then .ends .ofNamespace
      else .opens (.namespaceBody (withoutGlobal (joined (ls.takeWhile isNamePart))))
    else if typeWords.any (isKeyword l) then
      if followsWord before "end" then .ends .ofType
      else if followsWord before "as" || startsWithPunct "." before then .stays
      else
        match ls with
        | name :: _ => if name.isIdent then .opens (.typeBody name.text) else .stays
        | [] => .stays
    else .stays

/-- The name of the generic method whose declaration a place reads as: it follows the word for a
procedure, and type arguments follow it. A delegate reads as one too. -/
def methodName? (before : List Lexeme) : (here : List Lexeme) → Option String
  | word :: name :: arguments =>
    if (isKeyword word "function" || isKeyword word "sub") &&
        !(["end", "exit", "declare"].any (followsWord before)) && name.isIdent &&
        startsTypeArguments arguments then
      some name.text
    else none
  | _ => none

/-- What Visual Basic makes of the places of a row. No namespace is declared for all of a file, and
what reads as the declaration of a method is one unless it declares a delegate. -/
def headings : Headings where
  turn := turn
  fileNamespace? := fun _ _ => none
  methodName? := methodName?
  methodName?_nil := fun _ => rfl
  isDeclared := fun before _ => !followsWord before "delegate"

/-! ## The state of the search -/

/-- What has been opened. -/
def Scope.enclosure : Scope → Enclosure
  | namespaceBody name => .namespaceBody name
  | typeBody name => .typeBody name

theorem map_tail_dropWhile (ending : Ending) (p : Scope → Bool)
    (h : ∀ scope : Scope, p scope = !ending.fits scope.enclosure) (scopes : List Scope) :
    (scopes.dropWhile p).tail.map Scope.enclosure =
      Turn.apply (scopes.map Scope.enclosure) (.ends ending) := by
  have hp : p = (fun e => !ending.fits e) ∘ Scope.enclosure := funext h
  rw [Turn.apply, List.dropWhile_map, ← hp, List.map_tail]

theorem followsWord_eq (before : List Lexeme) {word : String} (hword : word ≠ "") :
    ((before.head?.map fun l => Text.lowerAscii l.text).getD "" == word) =
      followsWord before word := by
  cases before with
  | nil => simpa [followsWord] using hword.symm
  | cons l before => rfl

theorem any_isKeyword {l : Lexeme} (h : l.isIdent = true) (words : List String) :
    words.any (isKeyword l) = words.contains (Text.lowerAscii l.text) := by
  rw [List.contains_eq_any_beq]
  congr 1
  funext word
  rw [isKeyword, h, Bool.true_and]

/-- The open scopes follow the turns. -/
theorem map_enclosure_scopesAfter (scopes : List Scope) (before here : List Lexeme) :
    (scopesAfter scopes before here).map Scope.enclosure =
      (turn before here).apply (scopes.map Scope.enclosure) := by
  cases here with
  | nil => rfl
  | cons l ls =>
    cases hident : l.isIdent with
    | false => simp [scopesAfter, turn, isKeyword, hident, Turn.apply, typeWords]
    | true =>
      have hnamespace : isKeyword l "namespace" = (Text.lowerAscii l.text == "namespace") := by
        rw [isKeyword, hident, Bool.true_and]
      simp only [scopesAfter, turn, hident, hnamespace, any_isKeyword hident, bne,
        followsWord_eq before (by decide : "end" ≠ ""),
        followsWord_eq before (by decide : "as" ≠ "")]
      cases Text.lowerAscii l.text == "namespace" with
      | true =>
        cases followsWord before "end" with
        | true => exact map_tail_dropWhile .ofNamespace _ (fun scope => by cases scope <;> rfl) _
        | false => rfl
      | false =>
      cases typeWords.contains (Text.lowerAscii l.text) with
      | false => rfl
      | true =>
      cases followsWord before "end" with
      | true => exact map_tail_dropWhile .ofType _ (fun scope => by cases scope <;> rfl) _
      | false =>
      cases ls with
      | nil => cases followsWord before "as" || startsWithPunct "." before <;> rfl
      | cons name ls =>
        cases followsWord before "as" <;> cases startsWithPunct "." before <;>
          cases hname : name.isIdent <;> simp [hname, Turn.apply, Scope.enclosure]

/-! ## Methods -/

theorem findSome?_typeName?_map (scopes : List Scope) :
    (scopes.map Scope.enclosure).findSome? Enclosure.typeName? =
      scopes.findSome? Scope.typeName? := by
  rw [List.findSome?_map]
  congr 1
  funext scope
  cases scope <;> rfl

theorem filterMap_namespaceName?_map (scopes : List Scope) :
    (scopes.map Scope.enclosure).reverse.filterMap Enclosure.namespaceName? =
      scopes.reverse.filterMap Scope.namespaceName? := by
  rw [← List.map_reverse, List.filterMap_map]
  congr 1
  funext scope
  cases scope <;> rfl

/-- The search names a method by its innermost type and by all namespaces around it. -/
theorem genericMethod?_eq (scopes : List Scope) (before here : List Lexeme) :
    genericMethod? scopes before here =
      (headings.member? (scopes.map Scope.enclosure) before here).bind Member.genericMethod? := by
  have hscopes : headings.scopesAt (scopes.map Scope.enclosure) before here =
      scopes.map Scope.enclosure := List.append_nil _
  simp only [Headings.member?, Option.bind_map, Function.comp_def, Member.genericMethod?,
    Member.innermostType?, Member.namespaceName, hscopes, findSome?_typeName?_map,
    filterMap_namespaceName?_map]
  have hfollows : (fun w => before.head?.any fun l => Text.lowerAscii l.text == w) =
      followsWord before := rfl
  rcases here with _ | ⟨word, _ | ⟨name, ls⟩⟩
  · rfl
  · rfl
  · change _ = (methodName? before (word :: name :: ls)).bind _
    unfold genericMethod? methodName?
    rw [hfollows]
    dsimp only
    split <;> rfl

/-- The search finds the methods of the row, by their innermost types. -/
theorem genericMethodsFrom_eq (scopes : List Scope) (before ls : List Lexeme) :
    genericMethodsFrom scopes before ls =
      (headings.membersFrom (scopes.map Scope.enclosure) before ls).filterMap
        Member.genericMethod? := by
  induction ls generalizing scopes before with
  | nil => rfl
  | cons l ls ih =>
    rw [genericMethodsFrom, Headings.membersFrom, List.filterMap_append, ih,
      map_enclosure_scopesAfter, genericMethod?_eq, filterMap_toList]
    rfl

theorem genericMethods_eq (ls : List Lexeme) :
    genericMethods ls = (headings.members ls).filterMap Member.genericMethod? :=
  genericMethodsFrom_eq [] [] ls

end ZeroAlloc.VisualBasic

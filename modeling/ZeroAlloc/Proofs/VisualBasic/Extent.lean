import ZeroAlloc.Proofs.Site.Extent
import ZeroAlloc.VisualBasic.Creation
set_option autoImplicit false

/-! # Types and sites in Visual Basic

Each reader of a type takes an initial part of the row and leaves the rest as it is; so the lexemes
that spell an element type stand in the row one behind the other (`eq_append_of_typeRef`). Each
recogniser finds sites that lie in the row that it sees, so the sites of a file lie in the row of
its lexemes (`liesIn_of_mem_sites`). -/

namespace ZeroAlloc.VisualBasic

/-! ## Types -/

theorem startsTypeArguments_of_group {ls inside rest : List Lexeme}
    (h : BracketPair.parens.group? ls = some (inside, rest)) :
    startsTypeArguments ls = startsWithKeyword "of" inside := by
  obtain ⟨opening, close, hopen, hclose, rfl⟩ := BracketPair.eq_append_of_group h
  change (opening.isPunct "(" && startsWithKeyword "of" (inside ++ close :: rest)) = _
  rw [show opening.isPunct "(" = true from hopen, Bool.true_and]
  cases inside with
  | cons l inside => rfl
  | nil =>
    -- a closing bracket is no word
    simp only [BracketPair.parens, Lexeme.isPunct, Bool.and_eq_true, decide_eq_true_eq] at hclose
    simp [startsWithKeyword, isKeyword, Lexeme.isIdent, hclose.1]

theorem eq_append_of_typeArguments {ls taken rest : List Lexeme}
    (h : typeArguments? ls = some (taken, rest)) : ls = taken ++ rest := by
  unfold typeArguments? at h
  split at h
  · obtain ⟨⟨inside, r⟩, hgroup, he⟩ := Option.map_eq_some_iff.1 h
    cases he
    rw [← BracketPair.drop_of_group hgroup, List.take_append_drop]
  · cases h
    rfl

/-- One round of reading a name. -/
theorem typeName?_cons (l : Lexeme) (row : List Lexeme) :
    typeName? (l :: row) =
      if l.isIdent && !nonTypeWords.contains (Text.lowerAscii l.text) then
        (typeArguments? row).bind fun p =>
          if startsWithPunct "." p.2 && startsWithIdent p.2.tail then
            (typeName? p.2.tail).map fun q => (l :: p.1 ++ p.2.take 1 ++ q.1, q.2)
          else some (l :: p.1, p.2)
      else none := by
  rw [typeName?]
  split
  · split
    · rename_i harguments
      rw [harguments]
      rfl
    · rename_i arguments dot rest harguments
      rw [harguments, Option.bind_some]
      change (if (dot.isPunct "." && startsWithIdent rest) = true then _ else _) =
        if (dot.isPunct "." && startsWithIdent rest) = true then _ else _
      split
      · simp
      · rfl
    · rename_i harguments
      rw [harguments]
      rfl
  · rfl

theorem eq_append_of_typeName {ls name rest : List Lexeme}
    (h : typeName? ls = some (name, rest)) : ls = name ++ rest ∧ name ≠ [] := by
  fun_induction typeName? ls generalizing name with
  | case1 => cases h
  | case2 => cases h
  | case3 l ls hword arguments dot after harguments hdot ih =>
    obtain ⟨⟨more, r⟩, hmore, he⟩ := Option.map_eq_some_iff.1 h
    cases he
    rw [eq_append_of_typeArguments harguments, (ih hmore).1]
    simp
  | case4 l ls hword arguments dot after harguments =>
    cases h
    rw [eq_append_of_typeArguments harguments]
    exact ⟨rfl, List.cons_ne_nil _ _⟩
  | case5 l ls hword arguments harguments =>
    cases h
    rw [eq_append_of_typeArguments harguments]
    exact ⟨rfl, List.cons_ne_nil _ _⟩
  | case6 => cases h

/-- A type reference is the lexemes of its element type and then lists of bounds. -/
theorem eq_append_of_typeRef {ls rest : List Lexeme} {type : TypeRef}
    (h : typeRef? ls = some (type, rest)) :
    ∃ lists, ls = type.parts ++ lists ∧ type.parts ≠ [] ∧
      bounds? lists = some (type.levels, rest) := by
  obtain ⟨⟨name, after⟩, hname, hlevels⟩ := Option.bind_eq_some_iff.1 h
  obtain ⟨⟨levels, r⟩, hlevels, he⟩ := Option.map_eq_some_iff.1 hlevels
  cases he
  obtain ⟨rfl, hne⟩ := eq_append_of_typeName hname
  have hmark : after = (if startsWithPunct "?" after then after.take 1 else []) ++
      after.drop (if startsWithPunct "?" after then after.take 1 else []).length := by
    split
    · cases after <;> simp
    · rfl
  refine ⟨_, ?_, by simp [hne], hlevels⟩
  rw [List.append_assoc, ← hmark]

theorem suffix_of_typeRef {ls rest : List Lexeme} {type : TypeRef}
    (h : typeRef? ls = some (type, rest)) : rest <:+ ls := by
  obtain ⟨lists, rfl, _, hlevels⟩ := eq_append_of_typeRef h
  exact (suffix_of_arrayLevels hlevels).trans (List.suffix_append _ _)

/-! ## Creation expressions, declarations and calls -/

/-- What is found for a creation expression: an array type with an initializer list behind it. -/
inductive IsCreation : List Lexeme → Site → Prop where
  | intro {new : Lexeme} {ls rest contents after : List Lexeme} {type : TypeRef}
      {allocated : ArrayLevel} {inner : List ArrayLevel} (hnew : isKeyword new "new" = true)
      (htype : typeRef? ls = some (type, rest)) (hlevels : type.levels = allocated :: inner)
      (hbraces : BracketPair.braces.group? rest = some (contents, after)) :
      IsCreation (new :: ls)
        { first := 0
          last := (new :: ls).length - after.length - 1
          origin := .explicit
          inAttribute := false
          element := type.element.readWith
            ((new :: ls).take ((new :: ls).length - after.length))
          allocated
          inner
          initializer := some ⟨(new :: ls).length - rest.length, withoutNewlines contents⟩
          malformed := inner.any ArrayLevel.hasSizes }

theorem isCreation_of_creation {ls : List Lexeme} {s : Site} (h : creation? ls = some s) :
    IsCreation ls s := by
  unfold creation? at h
  split at h
  · rename_i hnew
    cases ls with
    | nil => cases hnew
    | cons new ls =>
      obtain ⟨⟨type, rest⟩, htype, h⟩ := Option.bind_eq_some_iff.1 h
      dsimp only at h
      split at h
      · cases h
      · rename_i allocated inner hlevels
        obtain ⟨⟨contents, after⟩, hbraces, rfl⟩ := Option.map_eq_some_iff.1 h
        exact .intro hnew htype hlevels hbraces
  · cases h

theorem liesIn_of_creation {ls : List Lexeme} {s : Site} (h : creation? ls = some s) :
    s.LiesIn ls := by
  cases isCreation_of_creation h with
  | intro _ htype _ hbraces =>
    have hrest := (suffix_of_typeRef htype).length_le
    have hafter := BracketPair.length_lt_of_group hbraces
    exact .of_written (Nat.zero_le _) (by dsimp only [List.length_cons]; omega) rfl

/-- One round of reading lists backwards. -/
theorem levelsBefore?_cons (l : Lexeme) (before : List Lexeme) :
    levelsBefore? (l :: before) =
      if l.isPunct ")" then
        (BracketPair.parens.enclosing? before).bind fun p => (levelsBefore? p.2).map fun q =>
          (ArrayLevel.ofContents p.1 :: q.1, q.2)
      else some ([], l :: before) := by
  rw [levelsBefore?]
  split
  · split
    · rename_i henclosing
      rw [henclosing]
      rfl
    · rename_i henclosing
      rw [henclosing]
      rfl
  · rfl

/-- What is found for a declaration whose word `As` the row starts with: the initializer list behind
an equals sign, for an array type without sizes. Its levels stand behind the declared name and
behind the word. -/
inductive IsDeclaration (before : List Lexeme) : List Lexeme → Site → Prop where
  | intro {word mark : Lexeme} {ls lines list contents rest : List Lexeme} {type : TypeRef}
      {nameLevels : List ArrayLevel} {allocated : ArrayLevel} {inner : List ArrayLevel}
      (hword : isKeyword word "as" = true)
      (htype : typeRef? ls = some (type, mark :: (lines ++ list)))
      (hmark : mark.isPunct "=" = true) (hlines : ∀ l ∈ lines, l.isNewline = true)
      (hname : nameLevels? before = some nameLevels)
      (hlevels : nameLevels ++ type.levels = allocated :: inner)
      (hsizes : ∀ level ∈ allocated :: inner, level.hasSizes = false)
      (hbraces : BracketPair.braces.group? list = some (contents, rest)) :
      IsDeclaration before (word :: ls)
        { first := (word :: ls).length - list.length
          last := (word :: ls).length - rest.length - 1
          origin := .implicitInitializer
          inAttribute := false
          element := type.element.readWith contents
          allocated
          inner
          initializer := some ⟨(word :: ls).length - list.length, withoutNewlines contents⟩
          malformed := false }

theorem isDeclaration_of_declarationSite {before ls : List Lexeme} {s : Site}
    (h : declarationSite? before ls = some s) : IsDeclaration before ls s := by
  unfold declarationSite? at h
  split at h
  · rename_i has
    split at h
    · rename_i type mark value htype
      dsimp only at h
      split at h
      · rename_i hmark
        split at h
        · rename_i nameLevels hname
          split at h
          · rename_i allocated inner contents rest hlevels hbraces
            split at h
            · cases h
            · rename_i hsizes
              cases h
              cases ls with
              | nil => cases has
              | cons word ls =>
                have hvalue := @List.takeWhile_append_dropWhile _ Lexeme.isNewline value
                rw [← hvalue] at htype
                exact .intro (Bool.and_eq_true_iff.1 has).1 htype (Bool.and_eq_true_iff.1 hmark).1
                  (List.all_eq_true.1 List.all_takeWhile) hname hlevels (by simpa using hsizes)
                  hbraces
          · cases h
        · cases h
      · cases h
    · cases h
  · cases h

/-- A declaration gives its initializer list to an array whose type has no sizes. -/
theorem exists_isListOn_of_declarationSite {before ls : List Lexeme} {s : Site}
    (h : declarationSite? before ls = some s) :
    ∃ type rest nameLevels allocated inner, typeRef? ls.tail = some (type, rest) ∧
      nameLevels? before = some nameLevels ∧ nameLevels ++ type.levels = allocated :: inner ∧
      (∀ level ∈ allocated :: inner, level.hasSizes = false) ∧
      Site.IsListOn [.braces] type.element allocated inner ls s := by
  cases isDeclaration_of_declarationSite h with
  | @intro word mark ls lines list contents rest type _ _ _ _ htype hmark hlines hname hlevels
      hsizes hbraces =>
    refine ⟨type, _, _, _, _, htype, hname, hlevels, hsizes, ?_⟩
    obtain ⟨front, rfl⟩ := suffix_of_typeRef htype
    have hrow : word :: (front ++ mark :: (lines ++ list)) =
        ((word :: front) ++ mark :: lines) ++ list := by simp
    have hfirst : (word :: (front ++ mark :: (lines ++ list))).length - list.length =
        ((word :: front) ++ mark :: lines).length := by
      rw [hrow, List.length_append, Nat.add_sub_cancel]
    have hlast : (word :: (front ++ mark :: (lines ++ list))).length - rest.length - 1 =
        ((word :: front) ++ mark :: lines).length + contents.length + 1 := by
      obtain ⟨_, _, _, _, rfl⟩ := BracketPair.eq_append_of_group hbraces
      rw [hrow]
      simp only [List.cons_append, List.length_append, List.length_cons]
      omega
    rw [hfirst, hlast, hrow]
    exact .intro _ list contents (withoutNewlines contents) rest .braces (by simp) hbraces
      (isAssigned_append (word :: front) hmark hlines list) (by simp [withoutNewlines])

/-- The type of a parameter array. Its levels stand behind its name and behind the word `As`. -/
theorem exists_typeRef_of_paramArray {before ls : List Lexeme} {p : ParamArray}
    (h : paramArray? before ls = some p) :
    ∃ nameLevels named type rest, named <:+ ls ∧
      arrayLevels .parens (fun _ => true) (ls.drop 2) = some (nameLevels, named) ∧
      typeRef? named.tail = some (type, rest) ∧ nameLevels ++ type.levels = p.allocated :: p.inner ∧
      p.element = type.element := by
  unfold paramArray? at h
  split at h
  · split at h
    · split at h
      · split at h
        · rename_i nameLevels named hname
          split at h
          · split at h
            · rename_i type rest htype
              split at h
              · cases h
              · rename_i allocated inner hlevels
                cases h
                exact ⟨nameLevels, named, type, rest,
                  (suffix_of_arrayLevels hname).trans (List.drop_suffix 2 ls), hname, htype,
                  hlevels, rfl⟩
            · cases h
          · cases h
        · cases h
      · cases h
    · cases h
  · cases h

/-- What is taken for a call without its array is a name and an argument list. -/
theorem exists_callSite_of_paramArrayCall {arrays : List ParamArray} {before ls : List Lexeme}
    {s : Site} (h : paramArrayCall? arrays before ls = some s) :
    ∃ array ∈ arrays, ∃ name args inside rest, ls = name :: args ∧ name.isIdent = true ∧
      BracketPair.parens.group? args = some (inside, rest) ∧ s = array.callSite inside := by
  unfold paramArrayCall? at h
  split at h
  · cases h
  · rename_i name args
    split at h
    · rename_i hname
      split at h
      · rename_i inside rest hgroup
        split at h
        · cases h
        · obtain ⟨array, hfind, rfl⟩ := Option.map_eq_some_iff.1 h
          exact ⟨array, List.mem_of_find?_eq_some hfind, name, args, inside, rest, rfl,
            (Bool.and_eq_true_iff.1 hname).1, hgroup, rfl⟩
      · cases h
    · cases h

theorem liesIn_of_paramArrayCall {arrays : List ParamArray} {before ls : List Lexeme} {s : Site}
    (h : paramArrayCall? arrays before ls = some s) : s.LiesIn ls := by
  obtain ⟨array, -, name, args, inside, rest, rfl, -, hgroup, rfl⟩ :=
    exists_callSite_of_paramArrayCall h
  exact array.liesIn_callSite hgroup

/-- The sites of a file lie in the row of its lexemes. -/
theorem liesIn_of_mem_sites {ls : List Lexeme} {s : Site} (h : s ∈ sites ls) : s.LiesIn ls := by
  refine liesIn_of_mem_collected (fun before here s hs => ?_) h
  simp only [List.mem_append, Option.mem_toList] at hs
  rcases hs with (hs | hs) | hs
  · exact liesIn_of_creation hs
  · obtain ⟨_, _, _, _, _, -, -, -, -, hlist⟩ := exists_isListOn_of_declarationSite hs
    exact hlist.liesIn
  · exact liesIn_of_paramArrayCall hs

end ZeroAlloc.VisualBasic

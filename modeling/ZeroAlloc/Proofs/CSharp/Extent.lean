import ZeroAlloc.CSharp.Creation
import ZeroAlloc.Proofs.Site.Extent
set_option autoImplicit false

/-! # Types and sites in C#

Each reader of a type takes an initial part of the row and leaves the rest as it is; so the lexemes
that spell an element type stand in the row one behind the other (`eq_append_of_typeRef`). Each
recogniser finds sites that lie in the row that it sees, so the sites of a file lie in the row of
its lexemes (`liesIn_of_mem_sites`). -/

namespace ZeroAlloc.CSharp

/-! ## Types -/

theorem eq_append_of_typeArgumentsFrom {depth : Nat} {ls taken rest : List Lexeme}
    (h : typeArgumentsFrom? depth ls = some (taken, rest)) : ls = taken ++ rest := by
  induction ls generalizing depth taken with
  | nil => simp [typeArgumentsFrom?] at h
  | cons l ls ih =>
    have more {d : Nat}
        (h : (typeArgumentsFrom? d ls).map (fun p => (l :: p.1, p.2)) = some (taken, rest)) :
        l :: ls = taken ++ rest := by
      obtain ⟨⟨t, r⟩, ht, he⟩ := Option.map_eq_some_iff.1 h
      cases he
      rw [ih ht]
      rfl
    unfold typeArgumentsFrom? at h
    split at h
    · split at h
      · cases h
        rfl
      · exact more h
    · split at h
      · exact more h
      · split at h
        · exact more h
        · cases h

theorem eq_append_of_typeArguments {ls taken rest : List Lexeme}
    (h : typeArguments? ls = some (taken, rest)) : ls = taken ++ rest := by
  cases ls with
  | nil =>
    cases h
    rfl
  | cons l ls =>
    rw [typeArguments?] at h
    split at h
    · obtain ⟨⟨t, r⟩, ht, he⟩ := Option.map_eq_some_iff.1 h
      cases he
      rw [eq_append_of_typeArgumentsFrom ht]
      rfl
    · cases h
      rfl

theorem eq_append_of_qualifier {ls mark rest : List Lexeme}
    (h : qualifier? ls = some (mark, rest)) : ls = mark ++ rest := by
  unfold qualifier? at h
  split at h
  · split at h
    · cases h
      rfl
    · split at h
      · split at h
        · cases h
          rfl
        · cases h
      · cases h
  · cases h

/-- One round of reading a name. -/
theorem typeName?_cons (l : Lexeme) (row : List Lexeme) :
    typeName? (l :: row) =
      if isTypeWord l row then
        (typeArguments? row).bind fun p =>
          match qualifier? p.2 with
          | some q => (typeName? q.2).map fun r => (l :: p.1 ++ q.1 ++ r.1, r.2)
          | none => some (l :: p.1, p.2)
      else none := by
  rw [typeName?]
  split
  · split
    · rename_i harguments
      rw [harguments]
      rfl
    · rename_i harguments
      rw [harguments, Option.bind_some]
      split
      · rename_i hqualifier
        rw [hqualifier]
      · rename_i hqualifier
        rw [hqualifier]
  · rfl

theorem eq_append_of_typeName {ls name rest : List Lexeme}
    (h : typeName? ls = some (name, rest)) : ls = name ++ rest ∧ name ≠ [] := by
  fun_induction typeName? ls generalizing name with
  | case1 => cases h
  | case2 => cases h
  | case3 l ls hword arguments after harguments hqualifier =>
    cases h
    rw [eq_append_of_typeArguments harguments]
    exact ⟨rfl, List.cons_ne_nil _ _⟩
  | case4 l ls hword arguments after harguments mark next hqualifier ih =>
    obtain ⟨⟨more, r⟩, hmore, he⟩ := Option.map_eq_some_iff.1 h
    cases he
    rw [eq_append_of_typeArguments harguments, eq_append_of_qualifier hqualifier, (ih hmore).1]
    simp
  | case5 => cases h

theorem eq_append_of_tuple {ls name rest : List Lexeme} (h : tuple? ls = some (name, rest)) :
    ls = name ++ rest ∧ name ≠ [] := by
  obtain ⟨⟨inside, r⟩, hgroup, he⟩ := Option.map_eq_some_iff.1 h
  cases he
  refine ⟨?_, ?_⟩
  · rw [← BracketPair.drop_of_group hgroup, List.take_append_drop]
  · obtain ⟨_, _, _, _, rfl⟩ := BracketPair.eq_append_of_group hgroup
    simp

/-- Whether the lexeme makes a type nullable or a pointer. -/
def isTypeMark (l : Lexeme) : Bool :=
  l.isPunct "?" || l.isPunct "*"

/-- A type reference is the lexemes of its element type and then lists of dimensions. -/
theorem eq_append_of_typeRef {ls rest : List Lexeme} {type : TypeRef}
    (h : typeRef? ls = some (type, rest)) :
    ∃ lists, ls = type.parts ++ lists ∧ type.parts ≠ [] ∧
      arrayLevels .squares (fun _ => true) lists = some (type.levels, rest) := by
  obtain ⟨⟨name, after⟩, hname, hlevels⟩ := Option.bind_eq_some_iff.1 h
  obtain ⟨⟨levels, r⟩, hlevels, he⟩ := Option.map_eq_some_iff.1 hlevels
  cases he
  have happend : ls = name ++ after ∧ name ≠ [] := by
    split at hname
    · exact eq_append_of_tuple hname
    · exact eq_append_of_typeName hname
  refine ⟨_, ?_, by simp [happend.2], hlevels⟩
  rw [happend.1, List.append_assoc, List.takeWhile_append_dropWhile]

theorem suffix_of_typeRef {ls rest : List Lexeme} {type : TypeRef}
    (h : typeRef? ls = some (type, rest)) : rest <:+ ls := by
  obtain ⟨lists, rfl, _, hlevels⟩ := eq_append_of_typeRef h
  exact (suffix_of_arrayLevels hlevels).trans (List.suffix_append _ _)

/-! ## Creation expressions -/

theorem isIdent_of_isWord (l : Lexeme) (h : l.isWord "new" = true) : l.isIdent = true := by
  simp_all [Lexeme.isWord, Lexeme.isIdent]

/-- What is found for a creation expression: an array whose type is inferred from its list, an array
of a type with a list behind it, or one without a list. -/
inductive IsCreation : List Lexeme → Site → Prop where
  | inferred {new : Lexeme} {ls inside rest contents after : List Lexeme}
      (hnew : new.isWord "new" = true)
      (hsquares : BracketPair.squares.group? ls = some (inside, rest))
      (hbraces : BracketPair.braces.group? rest = some (contents, after)) :
      IsCreation (new :: ls)
        { first := 0
          last := inside.length + 3 + contents.length + 1
          origin := .explicit
          inAttribute := false
          element := .inferred
          allocated := ArrayLevel.ofContents inside
          inner := []
          initializer := some ⟨inside.length + 3, contents⟩
          malformed := false }
  | listed {new : Lexeme} {ls rest contents after : List Lexeme} {type : TypeRef}
      {allocated : ArrayLevel} {inner : List ArrayLevel} (hnew : new.isWord "new" = true)
      (htype : typeRef? ls = some (type, rest)) (hlevels : type.levels = allocated :: inner)
      (hbraces : BracketPair.braces.group? rest = some (contents, after)) :
      IsCreation (new :: ls)
        { first := 0
          last := (new :: ls).length - after.length - 1
          origin := .explicit
          inAttribute := false
          element := type.element.readWith
            ((new :: ls).take ((new :: ls).length - after.length))
          allocated
          inner
          initializer := some ⟨(new :: ls).length - rest.length, contents⟩
          malformed := inner.any ArrayLevel.hasSizes }
  | unlisted {new : Lexeme} {ls rest : List Lexeme} {type : TypeRef} {allocated : ArrayLevel}
      {inner : List ArrayLevel} (hnew : new.isWord "new" = true)
      (htype : typeRef? ls = some (type, rest)) (hlevels : type.levels = allocated :: inner) :
      IsCreation (new :: ls)
        { first := 0
          last := (new :: ls).length - rest.length - 1
          origin := .explicit
          inAttribute := false
          element := type.element.readWith
            ((new :: ls).take ((new :: ls).length - rest.length))
          allocated
          inner
          initializer := none
          malformed := inner.any ArrayLevel.hasSizes }

theorem isCreation_of_creation {ls : List Lexeme} {s : Site} (h : creation? ls = some s) :
    IsCreation ls s := by
  unfold creation? at h
  split at h
  · cases h
  · split at h
    · rename_i new ls hnew
      split at h
      · obtain ⟨⟨inside, rest⟩, hsquares, h⟩ := Option.bind_eq_some_iff.1 h
        dsimp only at h
        split at h
        · cases h
        · obtain ⟨⟨contents, after⟩, hbraces, rfl⟩ := Option.map_eq_some_iff.1 h
          exact .inferred hnew hsquares hbraces
      · obtain ⟨⟨type, rest⟩, htype, h⟩ := Option.bind_eq_some_iff.1 h
        dsimp only at h
        split at h
        · cases h
        · rename_i allocated inner hlevels
          split at h
          · obtain ⟨⟨contents, after⟩, hbraces, rfl⟩ := Option.map_eq_some_iff.1 h
            exact .listed hnew htype hlevels hbraces
          · cases h
            exact .unlisted hnew htype hlevels
    · cases h

theorem liesIn_of_creation {ls : List Lexeme} {s : Site} (h : creation? ls = some s) :
    s.LiesIn ls := by
  cases isCreation_of_creation h with
  | inferred _ hsquares hbraces =>
    obtain ⟨_, _, _, _, rfl⟩ := BracketPair.eq_append_of_group hsquares
    obtain ⟨_, _, _, _, rfl⟩ := BracketPair.eq_append_of_group hbraces
    refine .of_written (Nat.zero_le _) ?_ rfl
    simp only [List.cons_append, List.length_cons, List.length_append]
    omega
  | listed | unlisted =>
    refine .of_written (Nat.zero_le _) ?_ rfl
    simp only [List.length_cons]
    omega

/-! ## Declarations and calls -/

theorem eq_append_of_elementList {ls contents rest : List Lexeme}
    (h : elementList? ls = some (contents, rest)) :
    ∃ opening close, ls = opening :: contents ++ close :: rest := by
  unfold elementList? at h
  split at h
  · obtain ⟨opening, close, _, _, hls⟩ := BracketPair.eq_append_of_group h
    exact ⟨opening, close, hls⟩
  · obtain ⟨opening, close, _, _, hls⟩ := BracketPair.eq_append_of_group h
    exact ⟨opening, close, hls⟩

/-- One round of reading declarators. -/
theorem declaratorSites_cons (element : ElementType) (allocated : ArrayLevel)
    (inner : List ArrayLevel) (position : Nat) (name mark : Lexeme) (value : List Lexeme) :
    declaratorSites element allocated inner position (name :: mark :: value) =
      if !name.isIdent then []
      else if mark.isPunct "=" then
        match elementList? value with
        | none => []
        | some p =>
          { first := position + 2
            last := position + 2 + p.1.length + 1
            origin := .implicitInitializer
            inAttribute := false
            element := element.readWith p.1
            allocated
            inner
            initializer := some ⟨position + 2, p.1⟩
            malformed := false } ::
          if startsWithPunct "," p.2 then
            declaratorSites element allocated inner (position + 2 + p.1.length + 1 + 2) p.2.tail
          else []
      else if mark.isPunct "," then declaratorSites element allocated inner (position + 2) value
      else [] := by
  rw [declaratorSites]
  split
  · rfl
  · split
    · split
      · rename_i hlist
        rw [hlist]
      · rename_i contents rest hlist
        simp only [hlist]
        cases rest <;> rfl
    · rfl

/-- The brackets of lists of element expressions. -/
def listBrackets : List BracketPair := [.squares, .braces]

/-- A list of element expressions is a bracketed group. -/
theorem exists_group_of_elementList {ls contents rest : List Lexeme}
    (h : elementList? ls = some (contents, rest)) :
    ∃ b ∈ listBrackets, b.group? ls = some (contents, rest) := by
  unfold elementList? at h
  split at h
  · exact ⟨.squares, by simp [listBrackets], h⟩
  · exact ⟨.braces, by simp [listBrackets], h⟩

/-- The declarators stand behind the lexemes `passed` of their declaration. -/
theorem isListOn_of_mem_declaratorSites {element : ElementType} {allocated : ArrayLevel}
    {inner : List ArrayLevel} {passed ls : List Lexeme} {s : Site}
    (h : s ∈ declaratorSites element allocated inner passed.length ls) :
    Site.IsListOn listBrackets element allocated inner (passed ++ ls) s := by
  generalize hposition : passed.length = position at h
  fun_induction declaratorSites element allocated inner position ls generalizing passed with
  | case1 => cases h
  | case2 => cases h
  | case3 position name mark value _ hmark contents rest hlist opening last =>
    rename_i ih
    subst hposition
    rcases List.mem_cons.1 h with rfl | h
    · obtain ⟨b, hb, hgroup⟩ := exists_group_of_elementList hlist
      have hassigned := isAssigned_append (passed ++ [name]) hmark (List.forall_mem_nil _) value
      have hsite : Site.IsListOn listBrackets element allocated inner _ _ :=
        .intro _ value contents contents rest b hb hgroup hassigned rfl
      simpa [Site.ofList] using hsite
    · obtain ⟨o, c, rfl⟩ := eq_append_of_elementList hlist
      split at h
      · rename_i comma rest _ _
        split at h
        · have hpassed : (passed ++ name :: mark :: o :: contents ++ [c, comma]).length =
              last + 2 := by
            simp only [List.length_append, List.length_cons, List.length_nil]
            omega
          simpa using ih comma rest hlist hpassed h
        · cases h
      · cases h
  | case4 position name mark value _ _ _ ih =>
    have hpassed : (passed ++ [name, mark]).length = position + 2 := by simp [hposition]
    simpa using ih hpassed h
  | case5 => cases h
  | case6 => cases h

theorem suffix_skipNullableMark (ls : List Lexeme) : skipNullableMark ls <:+ ls := by
  unfold skipNullableMark
  split
  · exact List.tail_suffix ls
  · exact List.suffix_rfl

/-- A declaration gives an initializer list to an array whose type has no sizes. -/
theorem exists_isListOn_of_mem_declarationSites {before ls : List Lexeme} {s : Site}
    (h : s ∈ declarationSites before ls) :
    ∃ type rest allocated inner, typeRef? ls = some (type, rest) ∧
      type.levels = allocated :: inner ∧
      (∀ level ∈ allocated :: inner, level.hasSizes = false) ∧
      Site.IsListOn listBrackets type.element allocated inner ls s := by
  unfold declarationSites at h
  split at h
  · cases h
  · split at h
    · cases h
    · rename_i type rest htype
      split at h
      · cases h
      · rename_i allocated inner hlevels
        split at h
        · cases h
        · rename_i hsizes
          obtain ⟨passed, hpassed⟩ :=
            (suffix_skipNullableMark rest).trans (suffix_of_typeRef htype)
          dsimp only at h
          rw [← hpassed, List.length_append, Nat.add_sub_cancel] at h
          refine ⟨type, rest, allocated, inner, htype, hlevels, ?_, ?_⟩
          · rw [hlevels] at hsizes
            simpa using hsizes
          · rw [← hpassed]
            exact isListOn_of_mem_declaratorSites h

/-- The type of a parameter array stands behind the word `params`. -/
theorem exists_typeRef_of_paramArray {before ls : List Lexeme} {p : ParamArray}
    (h : paramArray? before ls = some p) :
    ∃ type rest, typeRef? ls.tail = some (type, rest) ∧ type.levels = p.allocated :: p.inner ∧
      p.element = type.element := by
  unfold paramArray? at h
  split at h
  · cases h
  · split at h
    · split at h
      · split at h
        · split at h
          · rename_i type rest htype
            split at h
            · cases h
            · rename_i allocated inner hlevels
              cases h
              exact ⟨type, rest, htype, hlevels, rfl⟩
          · cases h
        · cases h
      · cases h
    · cases h

/-- What is taken for a call without its array is a name and an argument list. -/
theorem exists_callSite_of_paramArrayCall {arrays : List ParamArray} {before ls : List Lexeme}
    {s : Site} (h : paramArrayCall? arrays before ls = some s) :
    ∃ array ∈ arrays, ∃ name args inside rest, ls = name :: args ∧ name.isIdent = true ∧
      BracketPair.parens.group? args = some (inside, rest) ∧ s = array.callSite inside := by
  unfold paramArrayCall? at h
  split at h
  · cases h
  · rename_i name args
    split at h
    · rename_i hname
      split at h
      · rename_i inside rest hgroup
        split at h
        · cases h
        · obtain ⟨array, hfind, rfl⟩ := Option.map_eq_some_iff.1 h
          exact ⟨array, List.mem_of_find?_eq_some hfind, name, args, inside, rest, rfl,
            (Bool.and_eq_true_iff.1 hname).1, hgroup, rfl⟩
      · cases h
    · cases h

theorem liesIn_of_paramArrayCall {arrays : List ParamArray} {before ls : List Lexeme} {s : Site}
    (h : paramArrayCall? arrays before ls = some s) : s.LiesIn ls := by
  obtain ⟨array, -, name, args, inside, rest, rfl, -, hgroup, rfl⟩ :=
    exists_callSite_of_paramArrayCall h
  exact array.liesIn_callSite hgroup

/-- The sites of a file lie in the row of its lexemes. -/
theorem liesIn_of_mem_sites {ls : List Lexeme} {s : Site} (h : s ∈ sites ls) : s.LiesIn ls := by
  refine liesIn_of_mem_collected (fun before here s hs => ?_) h
  simp only [List.mem_append, Option.mem_toList] at hs
  rcases hs with (hs | hs) | hs
  · exact liesIn_of_creation hs
  · obtain ⟨_, _, _, _, -, -, -, hlist⟩ := exists_isListOn_of_mem_declarationSites hs
    exact hlist.liesIn
  · exact liesIn_of_paramArrayCall hs

end ZeroAlloc.CSharp

import ZeroAlloc.Proofs.CSharp.Extent
import ZeroAlloc.Proofs.Respelling
set_option autoImplicit false

/-! # Respelled sites in C#

Names of C# are their own canonical form, so only literals and malformed texts are respelled. The
recognisers look at the text of such a lexeme in no other way than to pass it on (`sites_row`). -/

namespace ZeroAlloc.CSharp

variable (r : Respelling id)

/-! ## Words -/

@[simp] theorem name_respelling (text : String) : r.name text = text :=
  r.canonical_name text

theorem text_apply_of_isIdent {l : Lexeme} (h : l.isIdent = true) :
    (r.apply l).text = l.text := by
  rw [r.text_of_ident (by simpa [Lexeme.isIdent] using h), name_respelling]

/-- A test of the text of names. -/
theorem isIdent_and_apply (p : String → Bool) (l : Lexeme) :
    (l.isIdent && p (r.apply l).text) = (l.isIdent && p l.text) := by
  cases h : l.isIdent with
  | false => rfl
  | true => rw [text_apply_of_isIdent r h]

@[simp] theorem isWord_apply (l : Lexeme) (word : String) :
    (r.apply l).isWord word = l.isWord word := by
  have h := isIdent_and_apply r (fun text => decide (text = word)) l
  simpa [Lexeme.isWord, Lexeme.isIdent] using h

theorem text_apply_beq {word : String} (hword : holdsMark word = false) (l : Lexeme) :
    ((r.apply l).text == word) = (l.text == word) := by
  rw [Bool.eq_iff_iff, beq_iff_eq, beq_iff_eq]
  exact r.canonical_text_apply_eq_iff hword l

theorem contains_text_apply {words : List String}
    (hwords : ∀ word ∈ words, holdsMark word = false) (l : Lexeme) :
    words.contains (r.apply l).text = words.contains l.text :=
  r.contains_canonical_text_apply hwords l

theorem startsWithText_row {words : List String}
    (hwords : ∀ word ∈ words, holdsMark word = false) (ls : List Lexeme) :
    startsWithText words (r.row ls) = startsWithText words ls := by
  cases ls with
  | nil => rfl
  | cons l ls => simpa [startsWithText] using contains_text_apply r hwords l

/-! ## Type references -/

/-- The readers of parts of a type give what they take and what follows it. -/
def taken (out : Option (List Lexeme × List Lexeme)) : Option (List Lexeme × List Lexeme) :=
  out.map (Prod.map r.row r.row)

@[simp] theorem isTypeArgumentMark_apply (l : Lexeme) :
    isTypeArgumentMark (r.apply l) = isTypeArgumentMark l := by
  simp [isTypeArgumentMark]

theorem typeArgumentsFrom?_row (depth : Nat) (ls : List Lexeme) :
    typeArgumentsFrom? depth (r.row ls) = taken r (typeArgumentsFrom? depth ls) := by
  induction ls generalizing depth with
  | nil => rfl
  | cons l ls ih =>
    simp only [Respelling.row_cons, typeArgumentsFrom?, Respelling.isPunct_apply,
      Respelling.isIdent_apply, isTypeArgumentMark_apply, ih, taken]
    split
    · cases depth <;> simp [Function.comp_def]
    · split
      · simp [Function.comp_def]
      · split <;> simp [Function.comp_def]

theorem typeArguments?_row (ls : List Lexeme) :
    typeArguments? (r.row ls) = taken r (typeArguments? ls) := by
  cases ls with
  | nil => rfl
  | cons l ls =>
    simp only [Respelling.row_cons, typeArguments?, Respelling.isPunct_apply,
      typeArgumentsFrom?_row, taken]
    split
    · simp [Function.comp_def]
    · rfl

theorem qualifier?_row (ls : List Lexeme) :
    qualifier? (r.row ls) = taken r (qualifier? ls) := by
  rcases ls with _ | ⟨dot, _ | ⟨name, _ | ⟨name', ls⟩⟩⟩
  · rfl
  · rfl
  · simp only [Respelling.row_cons, Respelling.row_nil, qualifier?, Respelling.isPunct_apply,
      Respelling.isIdent_apply]
    split <;> rfl
  · simp only [Respelling.row_cons, qualifier?, Respelling.isPunct_apply,
      Respelling.isIdent_apply]
    split
    · rfl
    · split <;> rfl

theorem isTypeWord_row (l : Lexeme) (ls : List Lexeme) :
    isTypeWord (r.apply l) (r.row ls) = isTypeWord l ls := by
  have hword := isIdent_and_apply r (fun text => !nonTypeWords.contains text) l
  have hnext : (r.row ls).head?.any (·.isPunct ":") = ls.head?.any (·.isPunct ":") := by
    cases ls <;> simp
  rw [isTypeWord, isTypeWord, r.isIdent_apply, hword, hnext, text_apply_beq r (by decide)]

theorem typeName?_row (ls : List Lexeme) : typeName? (r.row ls) = taken r (typeName? ls) := by
  fun_induction typeName? ls with
  | case1 =>
    rw [Respelling.row_nil, typeName?]
    rfl
  | case2 l ls hword harguments =>
    rw [Respelling.row_cons, typeName?_cons, isTypeWord_row, if_pos hword, typeArguments?_row,
      harguments]
    rfl
  | case3 l ls hword arguments rest harguments hqualifier =>
    rw [Respelling.row_cons, typeName?_cons, isTypeWord_row, if_pos hword, typeArguments?_row,
      harguments]
    simp [taken, qualifier?_row, hqualifier]
  | case4 l ls hword arguments rest harguments mark next hqualifier ih =>
    rw [Respelling.row_cons, typeName?_cons, isTypeWord_row, if_pos hword, typeArguments?_row,
      harguments]
    simp [taken, qualifier?_row, hqualifier, ih, Function.comp_def]
  | case5 l ls hword =>
    rw [Respelling.row_cons, typeName?_cons, isTypeWord_row, if_neg hword]
    rfl

theorem tuple?_row (ls : List Lexeme) : tuple? (r.row ls) = taken r (tuple? ls) := by
  simp [tuple?, taken, Function.comp_def]

/-- The respelled type reference. -/
def respelledType (t : TypeRef) : TypeRef :=
  ⟨r.row t.parts, t.isPointer, t.levels.map r.level⟩

@[simp] theorem element_respelledType (t : TypeRef) :
    (respelledType r t).element = r.element t.element := by
  simp [respelledType, TypeRef.element]

theorem typeRef?_row (ls : List Lexeme) :
    typeRef? (r.row ls) = (typeRef? ls).map (Prod.map (respelledType r) r.row) := by
  have hmark (l : Lexeme) : ((r.apply l).isPunct "?" || (r.apply l).isPunct "*") =
      (l.isPunct "?" || l.isPunct "*") := by simp
  have hhead : (r.row ls).head?.any (·.isPunct "(") = ls.head?.any (·.isPunct "(") := by
    cases ls <;> simp
  have hname : (if ls.head?.any (·.isPunct "(") then tuple? (r.row ls) else typeName? (r.row ls)) =
      taken r (if ls.head?.any (·.isPunct "(") then tuple? ls else typeName? ls) := by
    rw [tuple?_row, typeName?_row]
    split <;> rfl
  unfold typeRef?
  dsimp only
  rw [hhead, hname]
  generalize (if ls.head?.any (·.isPunct "(") = true then tuple? ls else typeName? ls) = out
  rcases out with _ | ⟨name, rest⟩
  · rfl
  · simp only [taken, Option.map_some, Option.bind_some, Prod.map]
    rw [r.dropWhile_row (p := fun l => l.isPunct "?" || l.isPunct "*") hmark,
      r.takeWhile_row (p := fun l => l.isPunct "?" || l.isPunct "*") hmark,
      r.any_row (p := fun l => l.isPunct "*") (by simp), r.arrayLevels_row .squares fun _ => rfl]
    simp [respelledType, Function.comp_def]

/-! ## Creation expressions -/

theorem elementList?_row (ls : List Lexeme) :
    elementList? (r.row ls) = (elementList? ls).map (Prod.map r.row r.row) := by
  simp only [elementList?, Respelling.startsWithPunct_row, Respelling.group?_row]
  split <;> rfl

theorem inferredCreation?_row (ls : List Lexeme) :
    inferredCreation? (r.row ls) = (inferredCreation? ls).map r.site := by
  unfold inferredCreation?
  rw [Respelling.group?_row]
  rcases BracketPair.squares.group? ls with _ | ⟨inside, rest⟩
  · rfl
  · simp only [Option.map_some, Option.bind_some, Prod.map, Respelling.ofContents_row,
      Respelling.hasSizes_level, Respelling.group?_row]
    split
    · rfl
    · simp [Function.comp_def, Respelling.site]

theorem typedCreation?_row (ls : List Lexeme) :
    typedCreation? (r.row ls) = (typedCreation? ls).map r.site := by
  unfold typedCreation?
  rw [Respelling.tail_row, typeRef?_row]
  rcases typeRef? ls.tail with _ | ⟨⟨parts, isPointer, _ | ⟨allocated, inner⟩⟩, rest⟩
  · rfl
  · rfl
  · simp only [Option.map_some, Option.bind_some, Prod.map, element_respelledType,
      Respelling.startsWithPunct_row, Respelling.group?_row, Respelling.length_row]
    simp only [respelledType, List.map_cons]
    split
    · rcases BracketPair.braces.group? rest with _ | ⟨contents, after⟩
      · rfl
      · simp [Respelling.site]
    · simp [Respelling.site]

theorem creation?_row (ls : List Lexeme) : creation? (r.row ls) = (creation? ls).map r.site := by
  cases ls with
  | nil => rfl
  | cons l ls =>
    have htyped := typedCreation?_row r (l :: ls)
    rw [Respelling.row_cons] at htyped
    simp only [Respelling.row_cons, creation?, isWord_apply, Respelling.startsWithPunct_row,
      inferredCreation?_row, htyped]
    split
    · split <;> rfl
    · rfl

/-! ## Declarations with initializer lists -/

theorem declaratorSites_row (element : ElementType) (allocated : ArrayLevel)
    (inner : List ArrayLevel) (position : Nat) (ls : List Lexeme) :
    declaratorSites (r.element element) (r.level allocated) (inner.map r.level) position
      (r.row ls) = (declaratorSites element allocated inner position ls).map r.site := by
  induction hn : ls.length using Nat.strongRecOn generalizing ls position with
  | ind n ih =>
    rcases ls with _ | ⟨name, _ | ⟨mark, value⟩⟩
    · rw [Respelling.row_nil, declaratorSites, declaratorSites] <;> simp
    · rw [Respelling.row_cons, Respelling.row_nil, declaratorSites, declaratorSites] <;> simp
    · rw [Respelling.row_cons, Respelling.row_cons, declaratorSites_cons, declaratorSites_cons]
      simp only [Respelling.isIdent_apply, Respelling.isPunct_apply, elementList?_row]
      split
      · rfl
      · split
        · cases hlist : elementList? value with
          | none => rfl
          | some p =>
            have hshort := length_lt_of_elementList hlist
            have hmore := ih p.2.tail.length (by simp at hn ⊢; omega)
              (position + 2 + p.1.length + 1 + 2) p.2.tail rfl
            simp only [Option.map_some, Prod.map, Respelling.length_row, Respelling.readWith_row,
              Respelling.startsWithPunct_row, Respelling.tail_row, List.map_cons]
            split
            · rw [hmore]
              rfl
            · rfl
        · split
          · exact ih value.length (by simp at hn; omega) (position + 2) value rfl
          · rfl

@[simp] theorem skipNullableMark_row (ls : List Lexeme) :
    skipNullableMark (r.row ls) = r.row (skipNullableMark ls) := by
  simp only [skipNullableMark, Respelling.startsWithPunct_row, Respelling.tail_row,
    Respelling.startsWithIdent_row]
  split <;> rfl

theorem declarationSites_row (before ls : List Lexeme) :
    declarationSites (r.row before) (r.row ls) = (declarationSites before ls).map r.site := by
  unfold declarationSites
  rw [startsWithText_row r (by decide), typeRef?_row]
  split
  · rfl
  · rcases typeRef? ls with _ | ⟨⟨parts, isPointer, _ | ⟨allocated, inner⟩⟩, rest⟩
    · rfl
    · rfl
    · simp only [Option.map_some, Prod.map, element_respelledType, skipNullableMark_row,
        Respelling.length_row]
      have hsizes : (r.level allocated :: inner.map r.level).any ArrayLevel.hasSizes =
          (allocated :: inner).any ArrayLevel.hasSizes :=
        r.any_hasSizes_level (allocated :: inner)
      simp only [respelledType, List.map_cons, hsizes]
      split
      · rfl
      · exact declaratorSites_row r _ allocated inner _ _

/-! ## Parameter arrays -/

theorem paramArray?_row (before ls : List Lexeme) :
    paramArray? (r.row before) (r.row ls) = (paramArray? before ls).map r.paramArray := by
  cases ls with
  | nil => rfl
  | cons l ls =>
    simp only [Respelling.row_cons, paramArray?, isWord_apply, Respelling.enclosing?_row,
      typeRef?_row]
    split
    · rcases BracketPair.parens.enclosing? before with _ | ⟨parameters, _ | ⟨method, outside⟩⟩
      · rfl
      · rfl
      · simp only [Option.map_some, Prod.map, Respelling.row_cons, Respelling.isIdent_apply]
        split
        · rename_i hmethod
          rcases typeRef? ls with _ | ⟨⟨parts, isPointer, _ | ⟨allocated, inner⟩⟩, rest⟩
          · rfl
          · rfl
          · have helement := element_respelledType r ⟨parts, isPointer, allocated :: inner⟩
            simp only [respelledType, List.map_cons] at helement
            simp [respelledType, Respelling.paramArray, text_apply_of_isIdent r hmethod, helement]
        · rfl
    · rfl

@[simp] theorem canCallAfter_row (before : List Lexeme) :
    canCallAfter (r.row before) = canCallAfter before := by
  cases before with
  | nil => rfl
  | cons l before =>
    simp only [Respelling.row_cons, canCallAfter, Respelling.isIdent_apply]
    cases h : l.isIdent with
    | false => rfl
    | true => rw [text_apply_of_isIdent r h]

theorem paramArrayCall?_row (arrays : List ParamArray) (before ls : List Lexeme) :
    paramArrayCall? (arrays.map r.paramArray) (r.row before) (r.row ls) =
      (paramArrayCall? arrays before ls).map r.site := by
  cases ls with
  | nil => rfl
  | cons l ls =>
    simp only [Respelling.row_cons, paramArrayCall?, Respelling.isIdent_apply, canCallAfter_row,
      Respelling.group?_row]
    split
    · rename_i hcall
      rcases BracketPair.parens.group? ls with _ | ⟨inside, rest⟩
      · rfl
      · have hname := text_apply_of_isIdent r (Bool.and_eq_true_iff.1 hcall).1
        have hparams : (r.row inside).any (·.text == "params") =
            inside.any (·.text == "params") :=
          r.any_row (fun l => text_apply_beq r (by decide) l) inside
        simp only [Option.map_some, Prod.map, hparams, Respelling.argumentCount_row, hname]
        split
        · rfl
        · simp only [List.find?_map, Function.comp_def, Respelling.paramArray, name_respelling,
            Option.map_map]
          congr 1
          funext p
          exact r.callSite_paramArray p inside
    · rfl

/-! ## Attributes -/

@[simp] theorem opensDeclaration_row (after : List Lexeme) :
    isAttributeSection.opensDeclaration (r.row after) =
      isAttributeSection.opensDeclaration after := by
  simp [isAttributeSection.opensDeclaration]

theorem isAttributeSection_row (before after : List Lexeme) (adjoins : Bool) :
    isAttributeSection (r.row before) (r.row after) adjoins =
      isAttributeSection before after adjoins := by
  cases before with
  | nil => simp [isAttributeSection]
  | cons l before =>
    have hbeq {word : String} (hword : holdsMark word = false) := text_apply_beq r hword l
    rw [Respelling.row_cons, isAttributeSection, isAttributeSection, opensDeclaration_row,
      contains_text_apply r (by decide), hbeq (by decide +kernel), hbeq (by decide +kernel),
      hbeq (by decide), r.startsWithIdent_row, r.startsWithPunct_row]

theorem attributeSection?_row (before ls : List Lexeme) (adjoins : Bool) :
    attributeSection? (r.row before) (r.row ls) adjoins = attributeSection? before ls adjoins := by
  unfold attributeSection?
  rw [r.tail_row, r.startsWithIdent_row, startsWithText_row r (by decide), r.group?_row]
  split
  · rcases BracketPair.squares.group? ls with _ | ⟨inside, after⟩
    · rfl
    · simp only [Option.map_some, Prod.map, isAttributeSection_row, Respelling.length_row]
  · rfl

theorem attributeSections_row (before : List Lexeme) (index : Nat) (previous : Option Nat)
    (ls : List Lexeme) :
    attributeSections (r.row before) index previous (r.row ls) =
      attributeSections before index previous ls := by
  induction ls generalizing before index previous with
  | nil => rfl
  | cons l ls ih =>
    rw [Respelling.row_cons, attributeSections, attributeSections, ← Respelling.row_cons,
      attributeSection?_row, ← Respelling.row_cons]
    split <;> simp only [ih]

/-! ## Sites -/

/-- The sites of a respelled row are the respelled sites. -/
theorem sites_row (ls : List Lexeme) : sites (r.row ls) = (sites ls).map r.site := by
  have harrays := r.atEachPlace_row (f := fun before here => (paramArray? before here).toList)
    (g := fun before here => (paramArray? before here).toList) (h := r.paramArray)
    (fun before here => by rw [paramArray?_row, Option.toList_map]) [] ls
  have hsections := attributeSections_row r [] 0 none ls
  rw [r.row_nil] at harrays hsections
  unfold sites
  dsimp only
  rw [harrays, hsections]
  refine r.collected_row (fun before here => ?_) _ ls
  rw [creation?_row, declarationSites_row, paramArrayCall?_row, Option.toList_map,
    Option.toList_map, List.map_append, List.map_append]

end ZeroAlloc.CSharp

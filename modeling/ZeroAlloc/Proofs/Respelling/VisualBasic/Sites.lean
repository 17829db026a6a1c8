import ZeroAlloc.Proofs.Respelling
import ZeroAlloc.Proofs.VisualBasic.Extent
set_option autoImplicit false

/-! # Respelled sites in Visual Basic

Words are recognised in their lower-case form, which is the canonical form of names, so a respelling
keeps what is recognised (`sites_row`). -/

namespace ZeroAlloc.VisualBasic

open Text (lowerAscii)

variable (r : Respelling lowerAscii)

/-! ## Words -/

theorem lowerAscii_text_apply {l : Lexeme} (h : l.isIdent = true) :
    lowerAscii (r.apply l).text = lowerAscii l.text := by
  rw [r.text_of_ident (by simpa [Lexeme.isIdent] using h), r.canonical_name]

/-- A test of the lower-case form of names. -/
theorem isIdent_and_apply (p : String → Bool) (l : Lexeme) :
    (l.isIdent && p (lowerAscii (r.apply l).text)) = (l.isIdent && p (lowerAscii l.text)) := by
  cases h : l.isIdent with
  | false => rfl
  | true => rw [lowerAscii_text_apply r h]

@[simp] theorem isKeyword_apply (l : Lexeme) (word : String) :
    isKeyword (r.apply l) word = isKeyword l word := by
  rw [isKeyword, isKeyword, r.isIdent_apply]
  exact isIdent_and_apply r (· == word) l

@[simp] theorem startsWithKeyword_row (word : String) (ls : List Lexeme) :
    startsWithKeyword word (r.row ls) = startsWithKeyword word ls := by
  cases ls with
  | nil => rfl
  | cons l ls => exact isKeyword_apply r l word

/-! ## Type references -/

@[simp] theorem startsTypeArguments_row (ls : List Lexeme) :
    startsTypeArguments (r.row ls) = startsTypeArguments ls := by
  simp [startsTypeArguments]

theorem typeArguments?_row (ls : List Lexeme) :
    typeArguments? (r.row ls) = (typeArguments? ls).map (Prod.map r.row r.row) := by
  simp only [typeArguments?, startsTypeArguments_row, r.group?_row]
  split
  · simp [Function.comp_def]
  · rfl

theorem typeName?_row (ls : List Lexeme) :
    typeName? (r.row ls) = (typeName? ls).map (Prod.map r.row r.row) := by
  induction hn : ls.length using Nat.strongRecOn generalizing ls with
  | ind n ih =>
    cases ls with
    | nil =>
      rw [r.row_nil, typeName?]
      rfl
    | cons l ls =>
      rw [r.row_cons, typeName?_cons, typeName?_cons, r.isIdent_apply,
        isIdent_and_apply r fun text => !nonTypeWords.contains text, typeArguments?_row]
      split
      · cases harguments : typeArguments? ls with
        | none => rfl
        | some p =>
          have hshort := length_le_of_typeArguments harguments
          have hmore := ih p.2.tail.length (by simp at hn ⊢; omega) p.2.tail rfl
          simp only [Option.map_some, Option.bind_some, Prod.map, r.startsWithPunct_row,
            r.tail_row, r.startsWithIdent_row, hmore]
          split
          · simp [Function.comp_def]
          · rfl
      · rfl

@[simp] theorem bounds?_row (ls : List Lexeme) :
    bounds? (r.row ls) = (bounds? ls).map (Prod.map (List.map r.level) r.row) :=
  r.arrayLevels_row .parens (by simp) ls

/-- The respelled type reference. -/
def respelledType (t : TypeRef) : TypeRef :=
  ⟨r.row t.parts, t.levels.map r.level⟩

@[simp] theorem element_respelledType (t : TypeRef) :
    (respelledType r t).element = r.element t.element := by
  simp [respelledType, TypeRef.element]

theorem typeRef?_row (ls : List Lexeme) :
    typeRef? (r.row ls) = (typeRef? ls).map (Prod.map (respelledType r) r.row) := by
  unfold typeRef?
  rw [typeName?_row]
  rcases typeName? ls with _ | ⟨name, rest⟩
  · rfl
  · have hmark : (if startsWithPunct "?" (r.row rest) then (r.row rest).take 1 else []) =
        r.row (if startsWithPunct "?" rest then rest.take 1 else []) := by
      rw [r.startsWithPunct_row, r.take_row]
      split <;> rfl
    simp only [Option.map_some, Option.bind_some, Prod.map, hmark, r.length_row, r.drop_row,
      bounds?_row]
    simp [Function.comp_def, respelledType]

/-! ## Creation expressions -/

theorem creation?_row (ls : List Lexeme) : creation? (r.row ls) = (creation? ls).map r.site := by
  unfold creation?
  rw [startsWithKeyword_row, r.tail_row, typeRef?_row]
  split
  · rcases typeRef? ls.tail with _ | ⟨⟨parts, _ | ⟨allocated, inner⟩⟩, rest⟩
    · rfl
    · rfl
    · simp only [Option.map_some, Option.bind_some, Prod.map, element_respelledType,
        r.group?_row, r.length_row]
      simp only [respelledType, List.map_cons]
      rcases BracketPair.braces.group? rest with _ | ⟨contents, after⟩
      · rfl
      · simp [Respelling.site]
  · rfl

/-! ## Declarations with initializer lists -/

theorem levelsBefore?_row (before : List Lexeme) :
    levelsBefore? (r.row before) =
      (levelsBefore? before).map (Prod.map (List.map r.level) r.row) := by
  fun_induction levelsBefore? before with
  | case1 =>
    rw [r.row_nil, levelsBefore?]
    rfl
  | case2 l ls hclose inside outside henclosing ih =>
    rw [r.row_cons, levelsBefore?_cons, r.isPunct_apply, if_pos hclose, r.enclosing?_row,
      henclosing]
    simp [ih, Function.comp_def]
  | case3 l ls hclose henclosing =>
    rw [r.row_cons, levelsBefore?_cons, r.isPunct_apply, if_pos hclose, r.enclosing?_row,
      henclosing]
    rfl
  | case4 l ls hclose =>
    rw [r.row_cons, levelsBefore?_cons, r.isPunct_apply, if_neg hclose]
    rfl

theorem nameLevels?_row (before : List Lexeme) :
    nameLevels? (r.row before) = (nameLevels? before).map (List.map r.level) := by
  have hmember (outside : List Lexeme) :
      ((r.row outside).head?.any fun l => memberWords.contains (lowerAscii l.text)) =
        outside.head?.any fun l => memberWords.contains (lowerAscii l.text) := by
    cases outside with
    | nil => rfl
    | cons l outside => exact r.contains_canonical_text_apply (by decide) l
  unfold nameLevels?
  rw [levelsBefore?_row]
  rcases levelsBefore? before with _ | ⟨levels, _ | ⟨name, outside⟩⟩
  · rfl
  · simp only [Option.map_some, Option.bind_some, Prod.map, List.isEmpty_map]
    split <;> rfl
  · simp only [Option.map_some, Option.bind_some, Prod.map, List.isEmpty_map, r.row_cons,
      r.isIdent_apply, hmember]
    split
    · rfl
    · split
      · rfl
      · split
        · rfl
        · simp

theorem declarationSite?_row (before ls : List Lexeme) :
    declarationSite? (r.row before) (r.row ls) = (declarationSite? before ls).map r.site := by
  unfold declarationSite?
  rw [startsWithKeyword_row, r.tail_row, startsWithKeyword_row, typeRef?_row, nameLevels?_row]
  split
  · rcases typeRef? ls.tail with _ | ⟨type, _ | ⟨mark, value⟩⟩
    · rfl
    · rfl
    · simp only [Option.map_some, Prod.map, r.row_cons, r.dropWhile_row r.isNewline_apply,
        r.isPunct_apply, r.startsWithPunct_row, r.group?_row, element_respelledType]
      split
      · rcases nameLevels? before with _ | nameLevels
        · rfl
        · simp only [Option.map_some, respelledType, ← List.map_append]
          rcases nameLevels ++ type.levels with _ | ⟨allocated, inner⟩
          · rfl
          · rcases BracketPair.braces.group? (value.dropWhile Lexeme.isNewline)
              with _ | ⟨contents, rest⟩
            · rfl
            · have hsizes := r.any_hasSizes_level (allocated :: inner)
              simp only [List.map_cons] at hsizes
              simp only [List.map_cons, Option.map_some, Prod.map, hsizes]
              split
              · rfl
              · simp [Respelling.site]
      · rfl
  · rfl

/-! ## Parameter arrays -/

theorem paramArray?_row (before ls : List Lexeme) :
    paramArray? (r.row before) (r.row ls) = (paramArray? before ls).map r.paramArray := by
  unfold paramArray?
  rw [startsWithKeyword_row, r.enclosing?_row, r.drop_row, r.arrayLevels_row .parens fun _ => rfl]
  split
  · rcases BracketPair.parens.enclosing? before with _ | ⟨parameters, _ | ⟨method, outside⟩⟩
    · rfl
    · rfl
    · simp only [Option.map_some, Prod.map, r.row_cons, r.isIdent_apply]
      split
      · rename_i hmethod
        have hname : (r.apply method).text = r.name method.text :=
          r.text_of_ident (by simpa [Lexeme.isIdent] using hmethod)
        rcases arrayLevels .parens (fun _ => true) (ls.drop 2) with _ | ⟨nameLevels, rest⟩
        · rfl
        · simp only [Option.map_some, Prod.map_apply, startsWithKeyword_row, r.tail_row,
            typeRef?_row]
          split
          · rcases typeRef? rest.tail with _ | ⟨type, after⟩
            · rfl
            · have helement := element_respelledType r type
              simp only [respelledType] at helement
              simp only [Option.map_some, Prod.map_apply, respelledType, ← List.map_append,
                helement]
              rcases nameLevels ++ type.levels with _ | ⟨allocated, inner⟩
              · rfl
              · simp [Respelling.paramArray, hname]
          · rfl
      · rfl
  · rfl

@[simp] theorem canCallAfter_row (before : List Lexeme) :
    canCallAfter (r.row before) = canCallAfter before := by
  cases before with
  | nil => rfl
  | cons l before =>
    rw [r.row_cons, canCallAfter, canCallAfter, r.isIdent_apply,
      r.contains_canonical_text_apply (by decide)]

theorem paramArrayCall?_row (arrays : List ParamArray) (before ls : List Lexeme) :
    paramArrayCall? (arrays.map r.paramArray) (r.row before) (r.row ls) =
      (paramArrayCall? arrays before ls).map r.site := by
  cases ls with
  | nil => rfl
  | cons l ls =>
    simp only [r.row_cons, paramArrayCall?, r.isIdent_apply, canCallAfter_row, r.group?_row]
    split
    · rename_i hcall
      rcases BracketPair.parens.group? ls with _ | ⟨inside, rest⟩
      · rfl
      · have hname := lowerAscii_text_apply r (Bool.and_eq_true_iff.1 hcall).1
        have hmethod (a : ParamArray) :
            Text.equalIgnoringCase (r.paramArray a).method (r.apply l).text =
              Text.equalIgnoringCase a.method l.text := by
          rw [Text.equalIgnoringCase, Text.equalIgnoringCase, hname, Respelling.paramArray,
            r.canonical_name]
        have hparams : (r.row inside).any (isKeyword · "paramarray") =
            inside.any (isKeyword · "paramarray") :=
          r.any_row (fun l => isKeyword_apply r l "paramarray") inside
        simp only [Option.map_some, Prod.map, hparams, r.argumentCount_row]
        split
        · rfl
        · simp only [List.find?_map, Function.comp_def, hmethod, Option.map_map]
          congr 1
          funext a
          exact r.callSite_paramArray a inside
    · rfl

/-! ## Attributes -/

@[simp] theorem startsStatementAfter_row (before : List Lexeme) :
    startsStatementAfter (r.row before) = startsStatementAfter before := by
  cases before <;> simp [startsStatementAfter]

theorem attributeEnd?_row (depth : Nat) (ls : List Lexeme) :
    attributeEnd? depth (r.row ls) = (attributeEnd? depth ls).map (Prod.map id r.row) := by
  induction ls generalizing depth with
  | nil => rfl
  | cons l ls ih =>
    simp only [r.row_cons, attributeEnd?, r.isNewline_apply, r.isPunct_apply, ih]
    repeat' split
    all_goals simp [Function.comp_def]

theorem attributeBlock?_row (before ls : List Lexeme) :
    attributeBlock? (r.row before) (r.row ls) = attributeBlock? before ls := by
  unfold attributeBlock?
  rw [r.startsWithPunct_row, r.tail_row, r.startsWithIdent_row, attributeEnd?_row,
    startsStatementAfter_row, r.startsWithPunct_row, r.startsWithPunct_row]
  split
  · rcases attributeEnd? 0 ls.tail with _ | ⟨width, after⟩
    · rfl
    · simp
  · rfl

theorem attributeBlocks_row (before : List Lexeme) (index : Nat) (ls : List Lexeme) :
    attributeBlocks (r.row before) index (r.row ls) = attributeBlocks before index ls := by
  induction ls generalizing before index with
  | nil => rfl
  | cons l ls ih =>
    rw [r.row_cons, attributeBlocks, attributeBlocks, ← r.row_cons, attributeBlock?_row,
      ← r.row_cons, ih]

/-! ## Sites -/

/-- The sites of a respelled row are the respelled sites. -/
theorem sites_row (ls : List Lexeme) : sites (r.row ls) = (sites ls).map r.site := by
  have harrays := r.atEachPlace_row (f := fun before here => (paramArray? before here).toList)
    (g := fun before here => (paramArray? before here).toList) (h := r.paramArray)
    (fun before here => by rw [paramArray?_row, Option.toList_map]) [] ls
  have hblocks := attributeBlocks_row r [] 0 ls
  rw [r.row_nil] at harrays hblocks
  unfold sites
  dsimp only
  rw [harrays, hblocks]
  refine r.collected_row (fun before here => ?_) _ ls
  rw [creation?_row, declarationSite?_row, paramArrayCall?_row, Option.toList_map,
    Option.toList_map, Option.toList_map, List.map_append, List.map_append]

end ZeroAlloc.VisualBasic

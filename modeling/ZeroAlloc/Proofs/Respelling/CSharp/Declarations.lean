import Mathlib.Data.List.TakeWhile
import ZeroAlloc.CSharp.Size
import ZeroAlloc.Proofs.Declaration
import ZeroAlloc.Proofs.Respelling.CSharp.Sites
import ZeroAlloc.Proofs.Respelling.Fold
set_option autoImplicit false

/-! # Respelled declarations in C#

Imports and generic methods are told from names and punctuation alone, so they are the same in both
spellings; the definitions of constants are respelled. -/

namespace ZeroAlloc.CSharp

variable (r : Respelling id)

/-- Names and punctuation are not respelled. -/
theorem apply_eq_self {l : Lexeme} (h : l.isIdent = true ∨ l.kind = .punct) : r.apply l = l := by
  rcases h with h | h
  · have htext := text_apply_of_isIdent r h
    have hkind := r.kind_apply l
    cases hl : r.apply l
    cases l
    simp_all
  · exact r.apply_of_punct h

theorem isIdent_or_punct_of_isPart {l : Lexeme} {p : String}
    (h : (l.isIdent || l.isPunct p) = true) : l.isIdent = true ∨ l.kind = .punct := by
  simp only [Bool.or_eq_true, Lexeme.isPunct, Bool.and_eq_true, decide_eq_true_eq] at h
  exact h.imp_right And.left

/-- Dotted names are not respelled. -/
theorem row_takeWhile_eq_self {p : Lexeme → Bool}
    (hp : ∀ l, p l = true → l.isIdent = true ∨ l.kind = .punct) (ls : List Lexeme) :
    r.row (ls.takeWhile p) = ls.takeWhile p := by
  refine (List.map_congr_left fun l hl => ?_).trans (List.map_id _)
  exact apply_eq_self r (hp l (List.mem_takeWhile_imp hl))

/-! ## Imports -/

@[simp] theorem isImportPart_apply (l : Lexeme) : isImportPart (r.apply l) = isImportPart l := by
  simp [isImportPart]

theorem import?_row (i : Nat) (ls : List Lexeme) : import? i (r.row ls) = import? i ls := by
  have hpart (l : Lexeme) (h : isImportPart l = true) : l.isIdent = true ∨ l.kind = .punct := by
    rw [isImportPart, Bool.or_eq_true] at h
    rcases h with h | h
    · exact isIdent_or_punct_of_isPart h
    · exact isIdent_or_punct_of_isPart (p := ":") (by simp [h])
  have halias : (splitAlias ls).1.map r.name = (splitAlias ls).1 := by
    cases (splitAlias ls).1 <;> simp
  unfold import?
  dsimp only
  rw [startsWithText_row r (by decide), r.splitAlias_row]
  simp only [Prod.map, r.takeWhile_row (isImportPart_apply r),
    r.dropWhile_row (isImportPart_apply r), row_takeWhile_eq_self r hpart,
    Respelling.startsWithPunct_row, Respelling.length_row, halias]

theorem canImportAfter_row (before : List Lexeme) :
    canImportAfter (r.row before) = canImportAfter before := by
  cases before with
  | nil => rfl
  | cons l before => exact contains_text_apply r (by decide) l

theorem importsFrom_row (before : List Lexeme) (index depth : Nat) (ls : List Lexeme) :
    importsFrom (r.row before) index depth (r.row ls) = importsFrom before index depth ls := by
  induction ls generalizing before index depth with
  | nil => rfl
  | cons l ls ih =>
    have hmore (depth : Nat) : importsFrom (r.apply l :: r.row before) (index + 1) depth
        (r.row ls) = importsFrom (l :: before) (index + 1) depth ls :=
      ih (l :: before) (index + 1) depth
    simp only [Respelling.row_cons, importsFrom, Respelling.isPunct_apply, isWord_apply,
      canImportAfter_row, import?_row, hmore]

theorem imports_row (ls : List Lexeme) : imports (r.row ls) = imports ls :=
  importsFrom_row r [] 0 0 ls

/-! ## Constants -/

theorem endsDefinition_apply (depth : Nat) (l : Lexeme) :
    endsDefinition depth (r.apply l) = endsDefinition depth l := by
  simp [endsDefinition]

theorem constantDeclarators_row (ls : List Lexeme) :
    constantDeclarators (r.row ls) =
      (constantDeclarators ls).map (Prod.map id r.row) := by
  induction hn : ls.length using Nat.strongRecOn generalizing ls with
  | ind n ih =>
    rcases ls with _ | ⟨name, _ | ⟨mark, value⟩⟩
    · rw [Respelling.row_nil, constantDeclarators] <;> simp
    · rw [Respelling.row_cons, Respelling.row_nil, constantDeclarators,
        constantDeclarators] <;> simp
    · have hshort := length_definition_le endsDefinition 0 value
      have hmore := ih (definition endsDefinition 0 value).2.tail.length
        (by simp at hn ⊢; omega) _ rfl
      simp only [Respelling.row_cons, constantDeclarators_cons, Respelling.isIdent_apply,
        Respelling.isPunct_apply, r.definition_row (endsDefinition_apply r), Prod.map,
        Respelling.startsWithPunct_row, Respelling.tail_row, hmore]
      split
      · rename_i hname
        rw [text_apply_of_isIdent r (Bool.and_eq_true_iff.1 hname).1]
        split <;> simp
      · rfl

/-- The table of a respelled file has the respelled definitions. -/
theorem constants_row (ls : List Lexeme) :
    constants (r.row ls) = r.constants (d := dialect) (constants ls) := by
  have hword (here : List Lexeme) : (r.row here).head?.any (·.isWord "const") =
      here.head?.any (·.isWord "const") := by
    cases here <;> simp
  unfold constants
  rw [← r.ofDeclarations_row (d := dialect)]
  congr 1
  refine r.atEachPlace_row (h := Prod.map id r.row)
    (fun _ here => ?_) [] ls
  rw [hword, r.tail_row, typeRef?_row]
  split
  · rcases typeRef? here.tail with _ | ⟨type, rest⟩
    · rfl
    · exact constantDeclarators_row r rest
  · rfl

/-! ## Generic methods -/

theorem after_row (n : Nesting) (ls : List Lexeme) : n.after (r.row ls) = n.after ls := by
  cases ls with
  | nil => rfl
  | cons l ls =>
    have hpart (l : Lexeme) : ((r.apply l).isIdent || (r.apply l).isPunct ".") =
        (l.isIdent || l.isPunct ".") := by simp
    have hname : (r.row ls).takeWhile (fun l => l.isIdent || l.isPunct ".") =
        ls.takeWhile fun l => l.isIdent || l.isPunct "." :=
      (r.takeWhile_row hpart ls).trans
        (row_takeWhile_eq_self r (fun _ => isIdent_or_punct_of_isPart) ls)
    have hrest : (r.row ls).dropWhile (fun l => l.isIdent || l.isPunct ".") =
        r.row (ls.dropWhile fun l => l.isIdent || l.isPunct ".") := r.dropWhile_row hpart ls
    have hwords : (r.apply l).isWord = l.isWord := funext (isWord_apply r l)
    simp only [r.row_cons, Nesting.after, r.isPunct_apply, hwords, hname, hrest,
      r.startsWithPunct_row]
    rcases ls with _ | ⟨name, ls⟩
    · rfl
    · have htype : (if (r.apply name).isIdent then
            { n with announced := some (.typeBody (r.apply name).text) } else n) =
          if name.isIdent then { n with announced := some (.typeBody name.text) } else n := by
        rw [r.isIdent_apply]
        split
        · rename_i h
          rw [text_apply_of_isIdent r h]
        · rfl
      simp only [r.row_cons, htype]

theorem declaresAfter_row (before : List Lexeme) :
    declaresAfter (r.row before) = declaresAfter before := by
  cases before with
  | nil => rfl
  | cons l before =>
    rw [r.row_cons, declaresAfter, declaresAfter, contains_text_apply r (by decide),
      r.isIdent_apply, isIdent_and_apply r fun text => !nonTypeWords.contains text]

theorem genericMethod?_row (n : Nesting) (before ls : List Lexeme) :
    genericMethod? n (r.row before) (r.row ls) = genericMethod? n before ls := by
  cases ls with
  | nil => rfl
  | cons l ls =>
    have hwords : (r.apply l).isWord = l.isWord := funext (isWord_apply r l)
    simp only [r.row_cons, genericMethod?, hwords, r.isIdent_apply, r.startsWithIdent_row,
      r.startsWithPunct_row, declaresAfter_row, typeArguments?_row]
    split
    · rename_i h
      have hname : l.isIdent = true := by simp_all
      rw [text_apply_of_isIdent r hname]
      rcases n.typeName? with _ | typeName
      · rfl
      · rcases typeArguments? ls with _ | ⟨arguments, rest⟩
        · rfl
        · simp [taken]
    · rfl

theorem genericMethodsFrom_row (n : Nesting) (before ls : List Lexeme) :
    genericMethodsFrom n (r.row before) (r.row ls) = genericMethodsFrom n before ls := by
  induction ls generalizing n before with
  | nil => rfl
  | cons l ls ih =>
    rw [r.row_cons, genericMethodsFrom, genericMethodsFrom, ← r.row_cons, genericMethod?_row,
      after_row, ← r.row_cons, ih]

theorem genericMethods_row (ls : List Lexeme) : genericMethods (r.row ls) = genericMethods ls :=
  genericMethodsFrom_row r _ [] ls

/-! ## Sizes -/

theorem dottedName?_row (ls : List Lexeme) :
    dottedName? (r.row ls) =
      (dottedName? ls).map fun (last, width, rest) => (last, width, r.row rest) := by
  fun_induction dottedName? ls with
  | case1 => rfl
  | case2 l hident => simp [dottedName?, hident, text_apply_of_isIdent r hident]
  | case3 l hident => simp [dottedName?, hident]
  | case4 l dot ls hident => simp [dottedName?, hident]
  | case5 l dot ls hident hdot ih =>
    simp_all [dottedName?, Function.comp_def]
  | case6 l dot ls hident hdot =>
    simp_all [dottedName?, text_apply_of_isIdent r]

theorem castWidth?_row (ls : List Lexeme) : castWidth? (r.row ls) = castWidth? ls := by
  cases ls with
  | nil => rfl
  | cons l ls =>
    simp only [Respelling.row_cons, castWidth?, Respelling.isPunct_apply, dottedName?_row]
    split
    · rcases dottedName? ls with _ | ⟨name, width, _ | ⟨close, _ | ⟨next, rest⟩⟩⟩
      · rfl
      · rfl
      · rfl
      · simp
    · rfl

theorem keepsSizes : r.KeepsSizes (d := dialect) where
  literal text := by rw [name_respelling]
  castWidth := castWidth?_row r
  isConversion name := by rw [name_respelling]

/-- A size is the same length in both spellings. -/
theorem length?_row (table : Constants) (size : List Lexeme) :
    length? (r.constants (d := dialect) table) (r.row size) = length? table size := by
  have hfold : fold dialect (r.constants (d := dialect) table) (r.row size) =
      fold dialect table size := Respelling.fold_row (keepsSizes r) table size
  rw [length?, length?, hfold]

end ZeroAlloc.CSharp

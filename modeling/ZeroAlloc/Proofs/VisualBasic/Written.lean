import ZeroAlloc.Proofs.Site.Pieces
import ZeroAlloc.Proofs.Site.Written
import ZeroAlloc.Proofs.VisualBasic.Extent
set_option autoImplicit false

/-! # What sites in Visual Basic are cut from

Each recogniser of Visual Basic finds sites that start with a word or a bracket and end with a
bracket, with element types from the row (`isCutFrom_of_mem_sites`). They are written in the row as
their parts say (`isWrittenIn_of_mem_sites`) and end with a closed group
(`isWhole_of_mem_sites`). -/

namespace ZeroAlloc.VisualBasic

variable {row : List Lexeme}

theorem isReadFrom_of_typeRef {ls rest : List Lexeme} {type : TypeRef} (hls : ls ⊆ row)
    (h : typeRef? ls = some (type, rest)) : type.element.IsReadFrom row := by
  obtain ⟨lists, rfl, _, _⟩ := eq_append_of_typeRef h
  exact ElementType.isReadFrom_ofParts (fun l hl => hls (List.mem_append_left _ hl)) _

theorem isCutFrom_of_creation {ls : List Lexeme} {s : Site} (hls : ls ⊆ row)
    (h : creation? ls = some s) : s.IsCutFrom row ls := by
  cases isCreation_of_creation h with
  | @intro new ls _ _ _ type _ _ hnew htype _ hbraces =>
    have hword : new.isIdent = true := (Bool.and_eq_true_iff.1 hnew).1
    have helement : type.element.IsReadFrom row :=
      isReadFrom_of_typeRef (fun l hl => hls (List.mem_cons_of_mem _ hl)) htype
    have hcloses := (ClosesBefore.of_group (by simp) hbraces).of_suffix
      ((suffix_of_typeRef htype).trans (List.suffix_cons new ls))
    exact ⟨⟨new, rfl, .inl hword⟩, hcloses.exists_getElem?, helement.readWith _⟩

theorem isCutFrom_of_declarationSite {before ls : List Lexeme} {s : Site} (hls : ls ⊆ row)
    (h : declarationSite? before ls = some s) : s.IsCutFrom row ls := by
  obtain ⟨type, rest, nameLevels, allocated, inner, htype, -, -, -, hlist⟩ :=
    exists_isListOn_of_declarationSite h
  have helement : type.element.IsReadFrom row :=
    isReadFrom_of_typeRef (fun l hl => hls (List.mem_of_mem_tail hl)) htype
  exact .of_isListOn (by simp) helement hlist

theorem isReadFrom_of_paramArray {before ls : List Lexeme} {p : ParamArray} (hls : ls ⊆ row)
    (h : paramArray? before ls = some p) : p.element.IsReadFrom row := by
  obtain ⟨_, named, type, _, hnamed, -, htype, -, helement⟩ := exists_typeRef_of_paramArray h
  rw [helement]
  exact isReadFrom_of_typeRef (fun l hl => hls (hnamed.mem (List.mem_of_mem_tail hl))) htype

theorem isCutFrom_of_paramArrayCall {arrays : List ParamArray} {before ls : List Lexeme} {s : Site}
    (harrays : ∀ p ∈ arrays, p.element.IsReadFrom row)
    (h : paramArrayCall? arrays before ls = some s) : s.IsCutFrom row ls := by
  obtain ⟨array, harray, name, args, inside, rest, rfl, hname, hgroup, rfl⟩ :=
    exists_callSite_of_paramArrayCall h
  exact ParamArray.isCutFrom_callSite (harrays array harray) hname hgroup

/-- The sites of a file are cut from the row of its lexemes. -/
theorem isCutFrom_of_mem_sites {ls : List Lexeme} {s : Site} (h : s ∈ sites ls) :
    s.IsCutFrom ls ls := by
  refine isCutFrom_of_mem_collected (fun before here hhere s hs => ?_) h
  simp only [List.mem_append, Option.mem_toList] at hs
  rcases hs with (hs | hs) | hs
  · exact isCutFrom_of_creation hhere.subset hs
  · exact isCutFrom_of_declarationSite hhere.subset hs
  · refine isCutFrom_of_paramArrayCall (fun p hp => ?_) hs
    obtain ⟨passed, place, rfl, hfound⟩ := exists_place_of_mem_atEachPlace hp
    exact isReadFrom_of_paramArray (List.subset_append_right _ _) (Option.mem_toList.1 hfound)

/-! ## How written sites look -/

/-- A type reference starts with a name. -/
theorem exists_isIdent_of_typeRef {ls rest : List Lexeme} {type : TypeRef}
    (h : typeRef? ls = some (type, rest)) : ∃ next more, ls = next :: more ∧ next.isIdent := by
  obtain ⟨⟨name, after⟩, hname, -⟩ := Option.bind_eq_some_iff.1 h
  cases ls with
  | nil => simp [typeName?] at hname
  | cons next more =>
    rw [typeName?_cons] at hname
    split at hname
    next hword => exact ⟨next, more, rfl, (Bool.and_eq_true_iff.1 hword).1⟩
    next => cases hname

theorem isWrittenIn_of_creation {ls : List Lexeme} {s : Site} (h : creation? ls = some s) :
    s.IsWrittenIn ls := by
  cases isCreation_of_creation h with
  | @intro new _ _ contents _ _ _ _ hnew htype _ hbraces =>
    obtain ⟨next, more, rfl, hnext⟩ := exists_isIdent_of_typeRef htype
    simp only [isKeyword, Bool.and_eq_true, beq_iff_eq] at hnew
    refine .of_explicit rfl hnew.1 hnew.2 (.inl hnext) ?_
    rintro i hi
    cases hi
    exact .of_suffix (by simp) ((suffix_of_typeRef htype).trans (List.suffix_cons new _))
      hbraces (Initializer.StandsIn.withoutNewlines_withoutNewlines contents).symm

/-- The sites of a file are written in the row of its lexemes. -/
theorem isWrittenIn_of_mem_sites {ls : List Lexeme} {s : Site} (h : s ∈ sites ls) :
    s.IsWrittenIn ls := by
  refine isWrittenIn_of_mem_collected (fun before here s hs => ?_) h
  simp only [List.mem_append, Option.mem_toList] at hs
  rcases hs with (hs | hs) | hs
  · exact isWrittenIn_of_creation hs
  · obtain ⟨_, _, _, _, _, -, -, -, -, hlist⟩ := exists_isListOn_of_declarationSite hs
    exact .of_isListOn (by simp) hlist
  · obtain ⟨array, -, name, args, inside, rest, -, -, -, rfl⟩ :=
      exists_callSite_of_paramArrayCall hs
    exact .of_generated rfl

/-! ## Whole sites -/

/-- The word that starts a creation expression. -/
def isNew (l : Lexeme) : Bool :=
  isKeyword l "new"

theorem isWhole_of_creation {ls : List Lexeme} {s : Site} (h : creation? ls = some s) :
    s.IsWhole isNew [.braces] ls := by
  cases isCreation_of_creation h with
  | intro hnew htype _ hbraces =>
    exact .of_explicit rfl rfl hnew (by simp) (suffix_of_typeRef htype) hbraces rfl
      ElementType.isError_of_resolved

/-- The sites of a file are whole. -/
theorem isWhole_of_mem_sites {ls : List Lexeme} {s : Site} (h : s ∈ sites ls) :
    s.IsWhole isNew [.braces] ls := by
  refine isWhole_of_mem_collected (fun before here s hs => ?_) h
  simp only [List.mem_append, Option.mem_toList] at hs
  rcases hs with (hs | hs) | hs
  · exact isWhole_of_creation hs
  · obtain ⟨_, _, _, _, _, -, -, -, -, hlist⟩ := exists_isListOn_of_declarationSite hs
    exact .of_isListOn hlist
  · obtain ⟨array, -, name, args, inside, rest, -, -, -, rfl⟩ :=
      exists_callSite_of_paramArrayCall hs
    exact .of_generated rfl

end ZeroAlloc.VisualBasic

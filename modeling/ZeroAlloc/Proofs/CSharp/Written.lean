import ZeroAlloc.Proofs.CSharp.Extent
import ZeroAlloc.Proofs.Site.Pieces
import ZeroAlloc.Proofs.Site.Written
set_option autoImplicit false

/-! # What sites in C# are cut from

Each recogniser of C# finds sites that start with a word or a bracket and end with a bracket, with
element types from the row (`isCutFrom_of_mem_sites`). They are written in the row as their parts
say (`isWrittenIn_of_mem_sites`) and end with a closed group (`isWhole_of_mem_sites`). -/

namespace ZeroAlloc.CSharp

variable {row : List Lexeme}

theorem isReadFrom_of_typeRef {ls rest : List Lexeme} {type : TypeRef} (hls : ls ⊆ row)
    (h : typeRef? ls = some (type, rest)) : type.element.IsReadFrom row := by
  obtain ⟨lists, rfl, _, _⟩ := eq_append_of_typeRef h
  exact ElementType.isReadFrom_ofParts (fun l hl => hls (List.mem_append_left _ hl)) _

/-- An array type ends with a group. -/
theorem exists_group_of_typeRef {ls rest : List Lexeme} {type : TypeRef}
    (hlevels : type.levels ≠ []) (h : typeRef? ls = some (type, rest)) :
    ∃ list inside, list <:+ ls ∧ BracketPair.squares.group? list = some (inside, rest) := by
  obtain ⟨lists, rfl, _, harray⟩ := eq_append_of_typeRef h
  obtain ⟨list, inside, hlist, hgroup⟩ := exists_group_of_arrayLevels hlevels harray
  exact ⟨list, inside, hlist.trans (List.suffix_append _ _), hgroup⟩

/-! ## Creation expressions -/

theorem isCutFrom_of_creation {ls : List Lexeme} {s : Site} (hls : ls ⊆ row)
    (h : creation? ls = some s) : s.IsCutFrom row ls := by
  have htail : ls.tail ⊆ row := fun l hl => hls (List.mem_of_mem_tail hl)
  cases isCreation_of_creation h with
  | @inferred new ls inside rest contents after hnew hsquares hbraces =>
    refine ⟨⟨new, rfl, .inl (isIdent_of_isWord new hnew)⟩, ?_, ElementType.isReadFrom_inferred⟩
    have hcloses := (ClosesBefore.of_group (by simp) hbraces).of_suffix
      ((BracketPair.suffix_of_group hsquares).trans (List.suffix_cons new ls))
    obtain ⟨_, _, _, _, rfl⟩ := BracketPair.eq_append_of_group hsquares
    obtain ⟨_, _, _, _, rfl⟩ := BracketPair.eq_append_of_group hbraces
    have hlast := hcloses.exists_getElem?
    simp only [List.cons_append, List.length_cons, List.length_append] at hlast
    rwa [show inside.length + (contents.length + (after.length + 1) + 1 + 1) + 1 + 1 -
      after.length - 1 = inside.length + 3 + contents.length + 1 by omega] at hlast
  | @listed new ls _ _ _ _ _ _ hnew htype hlevels hbraces =>
    have hcloses := (ClosesBefore.of_group (by simp) hbraces).of_suffix
      ((suffix_of_typeRef htype).trans (List.suffix_cons new ls))
    exact ⟨⟨new, rfl, .inl (isIdent_of_isWord new hnew)⟩, hcloses.exists_getElem?,
      (isReadFrom_of_typeRef htail htype).readWith _⟩
  | @unlisted new ls _ _ _ _ hnew htype hlevels =>
    obtain ⟨list, inside, hlist, hgroup⟩ := exists_group_of_typeRef (by simp [hlevels]) htype
    have hcloses := (ClosesBefore.of_group (by simp) hgroup).of_suffix
      (hlist.trans (List.suffix_cons new ls))
    exact ⟨⟨new, rfl, .inl (isIdent_of_isWord new hnew)⟩, hcloses.exists_getElem?,
      (isReadFrom_of_typeRef htail htype).readWith _⟩

/-! ## Declarations and calls -/

theorem isCutFrom_of_mem_declarationSites {before ls : List Lexeme} {s : Site} (hls : ls ⊆ row)
    (h : s ∈ declarationSites before ls) : s.IsCutFrom row ls := by
  obtain ⟨type, rest, allocated, inner, htype, -, -, hlist⟩ :=
    exists_isListOn_of_mem_declarationSites h
  exact .of_isListOn (by simp [listBrackets]) (isReadFrom_of_typeRef hls htype) hlist

theorem isReadFrom_of_paramArray {before ls : List Lexeme} {p : ParamArray} (hls : ls ⊆ row)
    (h : paramArray? before ls = some p) : p.element.IsReadFrom row := by
  obtain ⟨type, rest, htype, -, helement⟩ := exists_typeRef_of_paramArray h
  rw [helement]
  exact isReadFrom_of_typeRef (fun l hl => hls (List.mem_of_mem_tail hl)) htype

theorem isCutFrom_of_paramArrayCall {arrays : List ParamArray} {before ls : List Lexeme} {s : Site}
    (harrays : ∀ p ∈ arrays, p.element.IsReadFrom row)
    (h : paramArrayCall? arrays before ls = some s) : s.IsCutFrom row ls := by
  obtain ⟨array, harray, name, args, inside, rest, rfl, hname, hgroup, rfl⟩ :=
    exists_callSite_of_paramArrayCall h
  exact ParamArray.isCutFrom_callSite (harrays array harray) hname hgroup

/-- The sites of a file are cut from the row of its lexemes. -/
theorem isCutFrom_of_mem_sites {ls : List Lexeme} {s : Site} (h : s ∈ sites ls) :
    s.IsCutFrom ls ls := by
  refine isCutFrom_of_mem_collected (fun before here hhere s hs => ?_) h
  simp only [List.mem_append, Option.mem_toList] at hs
  rcases hs with (hs | hs) | hs
  · exact isCutFrom_of_creation hhere.subset hs
  · exact isCutFrom_of_mem_declarationSites hhere.subset hs
  · refine isCutFrom_of_paramArrayCall (fun p hp => ?_) hs
    obtain ⟨passed, place, rfl, hfound⟩ := exists_place_of_mem_atEachPlace hp
    exact isReadFrom_of_paramArray (List.subset_append_right _ _) (Option.mem_toList.1 hfound)

/-! ## Creation expressions -/

/-- A type reference starts with a name, a bracket or the word `global`. -/
theorem exists_startsAllocation_of_typeRef {ls rest : List Lexeme} {type : TypeRef}
    (h : typeRef? ls = some (type, rest)) :
    ∃ next more, ls = next :: more ∧ next.StartsAllocation := by
  obtain ⟨⟨name, after⟩, hname, -⟩ := Option.bind_eq_some_iff.1 h
  cases ls with
  | nil => simp [typeName?] at hname
  | cons next more =>
    refine ⟨next, more, rfl, ?_⟩
    split at hname
    next htuple =>
      have hopening : next.isPunct "(" = true := htuple
      exact .inr (.inl (by simp [Lexeme.opensGroup, hopening]))
    next =>
      rw [typeName?_cons] at hname
      split at hname
      next hword =>
        simp only [isTypeWord, Bool.or_eq_true, Bool.and_eq_true, beq_iff_eq] at hword
        exact hword.elim (fun h => .inl h.1) fun h => .inr (.inr h.1)
      next => cases hname

theorem lowerAscii_of_isWord_new {new : Lexeme} (h : new.isWord "new" = true) :
    new.isIdent = true ∧ Text.lowerAscii new.text = "new" := by
  simp only [Lexeme.isWord, Bool.and_eq_true, decide_eq_true_eq] at h
  exact ⟨by simpa [Lexeme.isIdent] using h.1, by rw [h.2]; decide⟩

theorem isWrittenIn_of_creation {ls : List Lexeme} {s : Site} (h : creation? ls = some s) :
    s.IsWrittenIn ls := by
  cases isCreation_of_creation h with
  | @inferred new ls inside rest contents after hnew hsquares hbraces =>
    obtain ⟨hident, hword⟩ := lowerAscii_of_isWord_new hnew
    obtain ⟨opening, close, hopening, -, rfl⟩ := BracketPair.eq_append_of_group hsquares
    have hopening : opening.isPunct "[" = true := hopening
    refine .of_explicit rfl hident hword (.inr (.inl (by simp [Lexeme.opensGroup, hopening]))) ?_
    rintro i hi
    cases hi
    -- the list stands behind the word, two brackets and what is between them
    have hrow : new :: (opening :: (inside ++ close :: rest)) =
        (new :: opening :: inside ++ [close]) ++ rest := by simp
    change Initializer.StandsIn _ (new :: opening :: (inside ++ close :: rest)) _
    rw [hrow]
    exact .of_group (by simp) hbraces (by simp) rfl rfl
  | @listed new _ _ _ _ _ _ _ hnew htype _ hbraces =>
    obtain ⟨hident, hword⟩ := lowerAscii_of_isWord_new hnew
    obtain ⟨next, more, rfl, hnext⟩ := exists_startsAllocation_of_typeRef htype
    refine .of_explicit rfl hident hword hnext ?_
    rintro i hi
    cases hi
    exact .of_suffix (by simp) ((suffix_of_typeRef htype).trans (List.suffix_cons new _))
      hbraces rfl
  | unlisted hnew htype =>
    obtain ⟨hident, hword⟩ := lowerAscii_of_isWord_new hnew
    obtain ⟨next, more, rfl, hnext⟩ := exists_startsAllocation_of_typeRef htype
    refine .of_explicit rfl hident hword hnext ?_
    rintro i hi
    cases hi

/-! ## Sites -/

/-- The sites of a file are written in the row of its lexemes. -/
theorem isWrittenIn_of_mem_sites {ls : List Lexeme} {s : Site} (h : s ∈ sites ls) :
    s.IsWrittenIn ls := by
  refine isWrittenIn_of_mem_collected (fun before here s hs => ?_) h
  simp only [List.mem_append, Option.mem_toList] at hs
  rcases hs with (hs | hs) | hs
  · exact isWrittenIn_of_creation hs
  · obtain ⟨_, _, _, _, -, -, -, hlist⟩ := exists_isListOn_of_mem_declarationSites hs
    exact .of_isListOn (by simp [listBrackets]) hlist
  · obtain ⟨array, -, name, args, inside, rest, -, -, -, rfl⟩ :=
      exists_callSite_of_paramArrayCall hs
    exact .of_generated rfl

/-! ## Whole sites -/

/-- The word that starts a creation expression. -/
def isNew (l : Lexeme) : Bool :=
  l.isWord "new"

theorem isWhole_of_creation {ls : List Lexeme} {s : Site} (h : creation? ls = some s) :
    s.IsWhole isNew listBrackets ls := by
  cases isCreation_of_creation h with
  | inferred hnew hsquares hbraces =>
    refine .of_explicit rfl rfl hnew (by simp [listBrackets])
      (BracketPair.suffix_of_group hsquares) hbraces ?_ (by simp [ElementType.inferred])
    obtain ⟨_, _, _, _, rfl⟩ := BracketPair.eq_append_of_group hsquares
    obtain ⟨_, _, _, _, rfl⟩ := BracketPair.eq_append_of_group hbraces
    simp only [List.cons_append, List.length_cons, List.length_append]
    omega
  | listed hnew htype _ hbraces =>
    exact .of_explicit rfl rfl hnew (by simp [listBrackets]) (suffix_of_typeRef htype) hbraces rfl
      ElementType.isError_of_resolved
  | unlisted hnew htype hlevels =>
    obtain ⟨list, inside, hlist, hgroup⟩ := exists_group_of_typeRef (by simp [hlevels]) htype
    exact .of_explicit rfl rfl hnew (by simp [listBrackets]) hlist hgroup rfl
      ElementType.isError_of_resolved

/-- The sites of a file are whole. -/
theorem isWhole_of_mem_sites {ls : List Lexeme} {s : Site} (h : s ∈ sites ls) :
    s.IsWhole isNew listBrackets ls := by
  refine isWhole_of_mem_collected (fun before here s hs => ?_) h
  simp only [List.mem_append, Option.mem_toList] at hs
  rcases hs with (hs | hs) | hs
  · exact isWhole_of_creation hs
  · obtain ⟨_, _, _, _, -, -, -, hlist⟩ := exists_isListOn_of_mem_declarationSites hs
    exact .of_isListOn hlist
  · obtain ⟨array, -, name, args, inside, rest, -, -, -, rfl⟩ :=
      exists_callSite_of_paramArrayCall hs
    exact .of_generated rfl

end ZeroAlloc.CSharp

import ZeroAlloc.Proofs.Site.Shape
import ZeroAlloc.Proofs.VisualBasic.Extent
set_option autoImplicit false

/-! # The shape of sites in Visual Basic

Each recogniser of Visual Basic finds sites whose parts fit together (`isProper_of_mem_sites`). -/

namespace ZeroAlloc.VisualBasic

theorem isProper_of_mem_levels {ls rest : List Lexeme} {type : TypeRef}
    (h : typeRef? ls = some (type, rest)) : ∀ level ∈ type.levels, level.IsProper := by
  obtain ⟨lists, _, _, hlevels⟩ := eq_append_of_typeRef h
  exact isProper_of_mem_arrayLevels hlevels

theorem isSpelled_of_typeRef {ls rest : List Lexeme} {type : TypeRef}
    (hls : ∀ l ∈ ls, l.text ≠ "") (h : typeRef? ls = some (type, rest)) :
    type.element.IsSpelled := by
  obtain ⟨lists, rfl, _, _⟩ := eq_append_of_typeRef h
  refine ElementType.isSpelled_ofParts (fun l hl => hls l ?_) _
  exact List.mem_append_left _ (List.mem_filter.1 hl).1

/-! ## Creation expressions -/

theorem isProper_of_creation {ls : List Lexeme} {s : Site} (hls : ∀ l ∈ ls, l.text ≠ "")
    (h : creation? ls = some s) : s.IsProper := by
  cases isCreation_of_creation h with
  | intro hnew htype hlevels hbraces =>
    have hspelled := isSpelled_of_typeRef (fun l hl => hls l (List.mem_cons_of_mem _ hl)) htype
    have hproper := isProper_of_mem_levels htype
    rw [hlevels] at hproper
    refine .of_explicit rfl (hspelled.readWith _) hproper ?_ rfl
    rintro i hi
    cases hi
    -- the list starts behind the type and has at least two brackets
    have hafter := BracketPair.length_lt_of_group hbraces
    have hrest := (suffix_of_typeRef htype).length_le
    exact ⟨Nat.zero_le _, by dsimp only [List.length_cons]; omega⟩

/-! ## Declarations and calls -/

theorem isProper_of_mem_levelsBefore {before rest : List Lexeme} {levels : List ArrayLevel}
    (h : levelsBefore? before = some (levels, rest)) : ∀ level ∈ levels, level.IsProper := by
  fun_induction levelsBefore? before generalizing levels with
  | case1 =>
    cases h
    exact List.forall_mem_nil _
  | case2 l ls _ inside outside _ ih =>
    obtain ⟨⟨more, r⟩, hmore, he⟩ := Option.map_eq_some_iff.1 h
    cases he
    exact List.forall_mem_cons.2 ⟨ArrayLevel.isProper_ofContents inside, ih hmore⟩
  | case3 => cases h
  | case4 =>
    cases h
    exact List.forall_mem_nil _

theorem isProper_of_mem_nameLevels {before : List Lexeme} {levels : List ArrayLevel}
    (h : nameLevels? before = some levels) : ∀ level ∈ levels, level.IsProper := by
  obtain ⟨⟨found, outside⟩, hbefore, h⟩ := Option.bind_eq_some_iff.1 h
  have hproper := isProper_of_mem_levelsBefore hbefore
  dsimp only at h
  split at h
  · cases h
    exact List.forall_mem_nil _
  · split at h
    · split at h
      · cases h
      · split at h
        · cases h
          exact List.forall_mem_nil _
        · cases h
          simpa using hproper
    · cases h

theorem isProper_of_declarationSite {before ls : List Lexeme} {s : Site}
    (hls : ∀ l ∈ ls, l.text ≠ "") (h : declarationSite? before ls = some s) : s.IsProper := by
  obtain ⟨type, rest, nameLevels, allocated, inner, htype, hname, hlevels, hsizes, hlist⟩ :=
    exists_isListOn_of_declarationSite h
  have hproper : ∀ level ∈ allocated :: inner, level.IsProper := by
    rw [← hlevels]
    exact List.forall_mem_append.2
      ⟨isProper_of_mem_nameLevels hname, isProper_of_mem_levels htype⟩
  have hspelled := isSpelled_of_typeRef (fun l hl => hls l (List.mem_of_mem_tail hl)) htype
  exact .of_isListOn hspelled hproper hsizes hlist

theorem isProper_of_paramArray {before ls : List Lexeme} {p : ParamArray}
    (hls : ∀ l ∈ ls, l.text ≠ "") (h : paramArray? before ls = some p) : p.IsProper := by
  obtain ⟨nameLevels, named, type, _, hnamed, hname, htype, hlevels, helement⟩ :=
    exists_typeRef_of_paramArray h
  refine ⟨?_, ?_⟩
  · rw [helement]
    exact isSpelled_of_typeRef (fun l hl => hls l (hnamed.mem (List.mem_of_mem_tail hl))) htype
  · rw [← hlevels]
    exact List.forall_mem_append.2
      ⟨isProper_of_mem_arrayLevels hname, isProper_of_mem_levels htype⟩

theorem isProper_of_paramArrayCall {arrays : List ParamArray} {before ls : List Lexeme} {s : Site}
    (harrays : ∀ p ∈ arrays, p.IsProper) (h : paramArrayCall? arrays before ls = some s) :
    s.IsProper := by
  obtain ⟨array, harray, -, -, inside, -, -, -, -, rfl⟩ := exists_callSite_of_paramArrayCall h
  exact ParamArray.isProper_callSite (harrays array harray) inside

/-- The parts of the sites of a file fit together. -/
theorem isProper_of_mem_sites {ls : List Lexeme} {s : Site} (hls : ∀ l ∈ ls, l.text ≠ "")
    (h : s ∈ sites ls) : s.IsProper := by
  refine isProper_of_mem_collected (fun before here hhere s hs => ?_) h
  have hhere := fun l hl => hls l (hhere.mem hl)
  simp only [List.mem_append, Option.mem_toList] at hs
  rcases hs with (hs | hs) | hs
  · exact isProper_of_creation hhere hs
  · exact isProper_of_declarationSite hhere hs
  · refine isProper_of_paramArrayCall (fun p hp => ?_) hs
    obtain ⟨passed, place, rfl, hfound⟩ := exists_place_of_mem_atEachPlace hp
    have hplace := fun l hl => hls l (List.mem_append_right passed hl)
    exact isProper_of_paramArray hplace (Option.mem_toList.1 hfound)

end ZeroAlloc.VisualBasic

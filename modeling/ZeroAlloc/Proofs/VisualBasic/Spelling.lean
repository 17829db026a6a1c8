import ZeroAlloc.Proofs.Site.Spelling
import ZeroAlloc.Proofs.VisualBasic.Extent
set_option autoImplicit false

/-! # Types of Visual Basic that are written again

What a reader of types takes it takes again from the same lexemes without their line breaks,
whatever follows them, as long as nothing there continues the type (`typeRef?_append`). The element
type of a site is read so (`isElement_of_mem_sites`). -/

namespace ZeroAlloc.VisualBasic

/-! ## Names -/

/-- No name goes on into the row. -/
structure StopsName (ls : List Lexeme) : Prop where
  arguments : startsTypeArguments ls = false
  part : startsWithPunct "." ls = false

theorem startsTypeArguments_of_not_paren {ls : List Lexeme} (h : startsWithPunct "(" ls = false) :
    startsTypeArguments ls = false := by
  rw [startsTypeArguments, h, Bool.false_and]

theorem startsWithKeyword_withoutNewlines {word : String} {ls : List Lexeme}
    (h : startsWithKeyword word ls = true) :
    startsWithKeyword word (withoutNewlines ls) = true := by
  cases ls with
  | nil => cases h
  | cons l ls =>
    have hl : isKeyword l word = true := h
    rwa [withoutNewlines_cons (Lexeme.isNewline_of_isIdent (Bool.and_eq_true_iff.1 hl).1)]

theorem typeArguments?_append {ls taken rest more : List Lexeme}
    (h : typeArguments? ls = some (taken, rest)) (hmore : startsTypeArguments more = false) :
    typeArguments? (withoutNewlines taken ++ more) = some (withoutNewlines taken, more) := by
  have hls := eq_append_of_typeArguments h
  unfold typeArguments? at h
  split at h
  · rename_i hof
    obtain ⟨⟨inside, r⟩, hgroup, he⟩ := Option.map_eq_some_iff.1 h
    rw [startsTypeArguments_of_group hgroup] at hof
    obtain rfl : r = rest := congrArg Prod.snd he
    rw [hls] at hgroup
    have hagain := BracketPair.group?_withoutNewlines (by decide) hgroup more
    rw [typeArguments?, startsTypeArguments_of_group hagain,
      startsWithKeyword_withoutNewlines hof, if_pos rfl, hagain, Option.map_some]
    dsimp only
    rw [BracketPair.take_of_group hagain]
  · cases h
    rw [withoutNewlines, List.filter_nil, List.nil_append, typeArguments?, hmore,
      if_neg (by simp)]

/-- The last part of a name is read again. -/
theorem typeName?_part {l : Lexeme} {ls arguments rest more : List Lexeme}
    (hword : (l.isIdent && !nonTypeWords.contains (Text.lowerAscii l.text)) = true)
    (h : typeArguments? ls = some (arguments, rest)) (hmore : StopsName more) :
    typeName? (withoutNewlines (l :: arguments) ++ more) =
      some (withoutNewlines (l :: arguments), more) := by
  have hline := Lexeme.isNewline_of_isIdent (Bool.and_eq_true_iff.1 hword).1
  rw [withoutNewlines_cons hline, List.cons_append, typeName?_cons, if_pos hword,
    typeArguments?_append h hmore.arguments, Option.bind_some, hmore.part, Bool.false_and,
    if_neg (by simp)]

/-- A name is read again in front of a row into which it does not go on. -/
theorem typeName?_append {ls name rest more : List Lexeme} (h : typeName? ls = some (name, rest))
    (hmore : StopsName more) :
    typeName? (withoutNewlines name ++ more) = some (withoutNewlines name, more) := by
  fun_induction typeName? ls generalizing name with
  | case1 => cases h
  | case2 l ls hword harguments => cases h
  | case3 l ls hword arguments dot after harguments hdot ih =>
    obtain ⟨⟨following, r⟩, hfollowing, he⟩ := Option.map_eq_some_iff.1 h
    cases he
    obtain ⟨hdot, hident⟩ := Bool.and_eq_true_iff.1 hdot
    obtain ⟨hafter, hne⟩ := eq_append_of_typeName hfollowing
    have hnext : startsWithIdent (withoutNewlines following ++ more) = true := by
      rw [hafter] at hident
      cases following with
      | nil => exact absurd rfl hne
      | cons m following =>
        have hm : m.isIdent = true := hident
        rwa [withoutNewlines_cons (Lexeme.isNewline_of_isIdent hm)]
    have hstop : startsTypeArguments (dot :: (withoutNewlines following ++ more)) = false :=
      startsTypeArguments_of_not_paren (BracketPair.isPunct_eq_false (by decide) hdot)
    have hpart : (startsWithPunct "." (dot :: (withoutNewlines following ++ more)) &&
        startsWithIdent (withoutNewlines following ++ more)) = true :=
      Bool.and_eq_true_iff.2 ⟨hdot, hnext⟩
    rw [withoutNewlines_append,
      withoutNewlines_cons (Lexeme.isNewline_of_isIdent (Bool.and_eq_true_iff.1 hword).1),
      withoutNewlines_cons (Lexeme.isNewline_of_isPunct hdot), List.append_assoc, List.cons_append,
      List.cons_append, typeName?_cons, if_pos hword, typeArguments?_append harguments hstop,
      Option.bind_some, List.tail_cons, if_pos hpart, ih hfollowing]
    simp
  | case4 l ls hword arguments dot after harguments hdot =>
    cases h
    exact typeName?_part hword harguments hmore
  | case5 l ls hword arguments harguments =>
    cases h
    exact typeName?_part hword harguments hmore
  | case6 => cases h

/-! ## Types -/

/-- A type is read again in front of other levels. -/
theorem typeRef?_append {ls rest lists : List Lexeme} {type : TypeRef} {levels : List ArrayLevel}
    (h : typeRef? ls = some (type, rest)) (hlists : bounds? lists = some (levels, []))
    (hof : startsTypeArguments lists = false)
    (hstart : lists = [] ∨ startsWithPunct "(" lists = true) :
    typeRef? (withoutNewlines type.parts ++ lists) =
      some (⟨withoutNewlines type.parts, levels⟩, []) := by
  obtain ⟨⟨name, after⟩, hname, h⟩ := Option.bind_eq_some_iff.1 h
  obtain ⟨⟨inner, r⟩, hinner, he⟩ := Option.map_eq_some_iff.1 h
  cases he
  cases hmark : startsWithPunct "?" after with
  | true =>
    cases after with
    | nil => cases hmark
    | cons mark after =>
      have hplain : mark.isNewline = false := Lexeme.isNewline_of_isPunct hmark
      have hstops : StopsName (mark :: lists) :=
        ⟨startsTypeArguments_of_not_paren (startsWithPunct_eq_false (by decide) hmark),
          startsWithPunct_eq_false (by decide) hmark⟩
      have hmark' : startsWithPunct "?" (mark :: lists) = true := hmark
      rw [if_pos rfl, List.take_succ_cons, List.take_zero, withoutNewlines_append,
        withoutNewlines_cons hplain, List.append_assoc]
      change typeRef? (withoutNewlines name ++ mark :: lists) = _
      rw [typeRef?, typeName?_append hname hstops, Option.bind_some]
      dsimp only
      rw [hmark', if_pos rfl]
      change (bounds? lists).map _ = _
      rw [hlists]
      rfl
  | false =>
    have hother {p : String} (hp : p ≠ "(") : startsWithPunct p lists = false := by
      rcases hstart with rfl | hopen
      · rfl
      · exact startsWithPunct_eq_false hp hopen
    rw [if_neg (by simp), List.append_nil, typeRef?,
      typeName?_append hname ⟨hof, hother (by decide)⟩, Option.bind_some]
    dsimp only
    rw [hother (by decide), if_neg (by simp)]
    change (bounds? lists).map _ = _
    rw [hlists]
    simp

/-- A level without sizes is no list of type arguments. -/
theorem startsTypeArguments_unsized (rank : Nat) (more : List Lexeme) :
    startsTypeArguments (BracketPair.parens.unsized rank ++ more) = false := by
  rw [startsTypeArguments_of_group
    (BracketPair.group?_unsized (by decide) (by decide) (by decide) rank more)]
  cases rank - 1 with
  | zero => rfl
  | succ n => rfl

/-! ## Element types of sites -/

/-- If the type is resolved, it is the element type of a type that is read somewhere. -/
def IsElement (t : ElementType) : Prop :=
  t.resolved = true → ∃ ls type rest, typeRef? ls = some (type, rest) ∧ t = type.element

theorem isElement_of_typeRef {ls rest : List Lexeme} {type : TypeRef}
    (h : typeRef? ls = some (type, rest)) : IsElement type.element :=
  fun _ => ⟨ls, type, rest, h, rfl⟩

theorem IsElement.readWith {t : ElementType} (h : IsElement t) (ls : List Lexeme) :
    IsElement (t.readWith ls) := by
  intro hresolved
  have heq := ElementType.readWith_of_resolved hresolved
  rw [heq] at hresolved ⊢
  exact h hresolved

theorem isElement_of_creation {ls : List Lexeme} {s : Site} (h : creation? ls = some s) :
    IsElement s.element := by
  cases isCreation_of_creation h with
  | intro _ htype => exact (isElement_of_typeRef htype).readWith _

theorem isElement_of_declarationSite {before ls : List Lexeme} {s : Site}
    (h : declarationSite? before ls = some s) : IsElement s.element := by
  obtain ⟨type, rest, _, _, _, htype, -, -, -, hlist⟩ := exists_isListOn_of_declarationSite h
  cases hlist
  exact (isElement_of_typeRef htype).readWith _

theorem isElement_of_paramArray {before ls : List Lexeme} {p : ParamArray}
    (h : paramArray? before ls = some p) : IsElement p.element := by
  obtain ⟨_, _, _, _, -, -, htype, -, helement⟩ := exists_typeRef_of_paramArray h
  rw [helement]
  exact isElement_of_typeRef htype

theorem isElement_of_paramArrayCall {arrays : List ParamArray} {before ls : List Lexeme} {s : Site}
    (harrays : ∀ p ∈ arrays, IsElement p.element) (h : paramArrayCall? arrays before ls = some s) :
    IsElement s.element := by
  obtain ⟨array, harray, -, -, -, -, -, -, -, rfl⟩ := exists_callSite_of_paramArrayCall h
  exact harrays array harray

/-- The element types of the sites of a file are those of types. -/
theorem isElement_of_mem_sites {ls : List Lexeme} {s : Site} (h : s ∈ sites ls) :
    IsElement s.element := by
  obtain ⟨passed, here, -, found, hfound, rfl⟩ := exists_found_of_mem_collected h
  rw [Site.element_markAttribute, Site.element_shift]
  simp only [List.mem_append, Option.mem_toList] at hfound
  rcases hfound with (hfound | hfound) | hfound
  · exact isElement_of_creation hfound
  · exact isElement_of_declarationSite hfound
  · refine isElement_of_paramArrayCall (fun p hp => ?_) hfound
    obtain ⟨_, _, _, hp⟩ := exists_place_of_mem_atEachPlace hp
    exact isElement_of_paramArray (Option.mem_toList.1 hp)

end ZeroAlloc.VisualBasic

import ZeroAlloc.Proofs.Site.Nesting
import ZeroAlloc.Proofs.VisualBasic.Written
set_option autoImplicit false

/-! # Sites of Visual Basic among nested brackets

Where round and curly brackets nest jointly, every recogniser finds a stretch of the row
(`isStretch_of_mem_sites`). The type that a creation expression names has the word `New` only inside
brackets, so no other creation expression reaches out of it (`apart`). -/

namespace ZeroAlloc.VisualBasic

/-- The brackets that enclose lists. -/
def brackets : Brackets where
  pairs := [.parens, .braces]

/-! ## Types without creation expressions -/

/-- The row is nested, and the word `New` stands in it inside brackets only. -/
abbrev NamesType (ls : List Lexeme) : Prop :=
  brackets.OnlyInside (isKeyword · "new") ls

theorem isIdent_of_isKeyword (l : Lexeme) (h : isKeyword l "new" = true) : l.isIdent = true :=
  (Bool.and_eq_true_iff.1 h).1

theorem namesType_of_typeArguments {ls taken rest : List Lexeme} (hls : brackets.Completes ls)
    (h : typeArguments? ls = some (taken, rest)) : NamesType taken := by
  have hrow := eq_append_of_typeArguments h
  unfold typeArguments? at h
  split at h
  · obtain ⟨⟨inside, r⟩, hgroup, he⟩ := Option.map_eq_some_iff.1 h
    obtain ⟨group, hls, hgroup, -⟩ := Brackets.isGroup_of_group (by decide) hls hgroup
    obtain rfl : r = rest := congrArg Prod.snd he
    obtain rfl := List.append_cancel_right (hrow.symm.trans hls)
    exact .of_isGroup isIdent_of_isKeyword hgroup
  · cases h
    exact .nil

theorem namesType_of_typeName {ls name rest : List Lexeme} (hls : brackets.Completes ls)
    (h : typeName? ls = some (name, rest)) : NamesType name := by
  have hword {l : Lexeme}
      (hl : (l.isIdent && !nonTypeWords.contains (Text.lowerAscii l.text)) = true) :
      NamesType [l] := by
    obtain ⟨hident, hlisted⟩ := Bool.and_eq_true_iff.1 hl
    obtain ⟨hopens, hcloses⟩ := Brackets.plain_of_isIdent (k := brackets) hident
    refine .singleton hopens hcloses ?_
    rw [Bool.eq_false_iff]
    intro hnew
    rw [eq_of_beq (Bool.and_eq_true_iff.1 hnew).2] at hlisted
    exact absurd hlisted (by decide)
  fun_induction typeName? ls generalizing name with
  | case1 => cases h
  | case2 => cases h
  | case3 l ls hl arguments dot after harguments hdot ih =>
    obtain ⟨⟨more, r⟩, hmore, he⟩ := Option.map_eq_some_iff.1 h
    cases he
    have hbehind : brackets.Completes ls := hls.of_suffix (List.suffix_cons l ls)
    have hafter : brackets.Completes after := by
      refine hbehind.of_suffix ?_
      rw [eq_append_of_typeArguments harguments]
      exact (List.suffix_cons dot after).trans (List.suffix_append _ _)
    have hpoint : NamesType [dot] :=
      .of_isPunct isIdent_of_isKeyword (Bool.and_eq_true_iff.1 hdot).1 (by decide)
    simpa using ((hword hl).append (namesType_of_typeArguments hbehind harguments)).append
      (hpoint.append (ih hafter hmore))
  | case4 l ls hl arguments dot after harguments =>
    cases h
    exact (hword hl).append
      (namesType_of_typeArguments (hls.of_suffix (List.suffix_cons l ls)) harguments)
  | case5 l ls hl arguments harguments =>
    cases h
    exact (hword hl).append
      (namesType_of_typeArguments (hls.of_suffix (List.suffix_cons l ls)) harguments)
  | case6 => cases h

theorem namesType_of_typeRef {ls rest : List Lexeme} {type : TypeRef}
    (hls : brackets.Completes ls) (h : typeRef? ls = some (type, rest)) : NamesType type.parts := by
  obtain ⟨⟨name, after⟩, hname, hlevels⟩ := Option.bind_eq_some_iff.1 h
  obtain ⟨⟨levels, r⟩, hlevels, he⟩ := Option.map_eq_some_iff.1 hlevels
  cases he
  refine (namesType_of_typeName hls hname).append ?_
  split
  · rename_i hmark
    cases after with
    | nil => cases hmark
    | cons mark after => exact .of_isPunct isIdent_of_isKeyword (q := "?") hmark (by decide)
  · exact .nil

/-! ## Sites -/

/-- A creation expression is the word `New` and a type. -/
def Creates (new : Lexeme) (parts : List Lexeme) : Prop :=
  isKeyword new "new" = true ∧ NamesType parts

theorem apart : Apart brackets Creates := by
  intro new new' before behind parts groups rest h h' hbefore _ _ _ _
  have hnew : isKeyword new' "new" = true := h'.1
  rw [h.2.outside before new' behind rfl hbefore] at hnew
  cases hnew

theorem isStretch_of_creation {ls : List Lexeme} {s : Site} (hls : brackets.Completes ls)
    (h : creation? ls = some s) : s.IsStretch brackets Creates ls := by
  cases isCreation_of_creation h with
  | @intro new more _ _ after type _ _ hnew htype hlevels hbraces =>
    replace hls : brackets.Completes more := hls.of_suffix (List.suffix_cons new more)
    have hident : new.isIdent = true := (Bool.and_eq_true_iff.1 hnew).1
    have hnames := namesType_of_typeRef hls htype
    obtain ⟨lists, rfl, -, harray⟩ := eq_append_of_typeRef htype
    obtain ⟨groups, rfl, hgroups, hne⟩ :=
      Brackets.areGroups_of_arrayLevels (by decide) hls.of_append harray
    obtain ⟨list, rfl, hlist, -⟩ :=
      Brackets.isGroup_of_group (by decide) hls.of_append.of_append hbraces
    refine ⟨[], new :: (type.parts ++ (groups ++ list)), after, by simp, rfl, ?_, ?_⟩
    · simp
      omega
    · refine .creation hident ⟨hnew, hnames⟩ hnames.nests (hgroups.append (.singleton hlist)) ?_
      simp [hne (by simp [hlevels])]

theorem isStretch_of_paramArrayCall {arrays : List ParamArray} {before ls : List Lexeme} {s : Site}
    (hls : brackets.Completes ls) (h : paramArrayCall? arrays before ls = some s) :
    s.IsStretch brackets Creates ls := by
  obtain ⟨array, -, name, args, inside, rest, rfl, hname, hgroup, rfl⟩ :=
    exists_callSite_of_paramArrayCall h
  exact array.isStretch_callSite hname (by decide) (hls.of_suffix (List.suffix_cons name args))
    hgroup

/-- The sites of a file with nested brackets are stretches of it. -/
theorem isStretch_of_mem_sites {ls : List Lexeme} {s : Site} (hls : brackets.Nests ls)
    (h : s ∈ sites ls) : s.IsStretch brackets Creates ls := by
  refine isStretch_of_mem_collected (fun before here hhere found hfound _ => ?_) h
  have hcompletes : brackets.Completes here := Brackets.Completes.of_suffix ⟨[], hls⟩ hhere
  simp only [List.mem_append, Option.mem_toList] at hfound
  rcases hfound with (hfound | hfound) | hfound
  · exact isStretch_of_creation hcompletes hfound
  · obtain ⟨_, _, _, _, _, -, -, -, -, hlist⟩ := exists_isListOn_of_declarationSite hfound
    exact .of_isListOn (by decide) hcompletes hlist
  · exact isStretch_of_paramArrayCall hcompletes hfound

end ZeroAlloc.VisualBasic

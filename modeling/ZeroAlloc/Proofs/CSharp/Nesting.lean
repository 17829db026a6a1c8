import ZeroAlloc.Proofs.CSharp.Backward
import ZeroAlloc.Proofs.CSharp.Written
import ZeroAlloc.Proofs.Site.Nesting
set_option autoImplicit false

/-! # Sites of C# among nested brackets

Where round, square and curly brackets nest jointly, in the file and in the types of its sites,
every recogniser finds a stretch of the row (`isStretch_of_mem_sites`). Type arguments may hold any
words, `new` too, and need not keep to the other brackets. But a creation expression among them
cannot reach out of them (`apart`): the angle bracket that closes them belongs to no type that
starts behind `new`, and no list of the other expression can hold it. -/

namespace ZeroAlloc.CSharp

/-- The brackets that enclose lists. -/
def brackets : Brackets where
  pairs := [.parens, .squares, .braces]

/-- The brackets around type arguments. -/
def angleBrackets : Brackets where
  pairs := [angles]

/-! ## Names of types -/

/-- The row is one that is read as the name of a type: the word `new` stands in it in type arguments
only, and it ends with a word or with type arguments. -/
structure NamesType (name : List Lexeme) : Prop where
  onlyInside : angleBrackets.OnlyInside (·.isWord "new") name
  last : ∀ l ∈ name.getLast?, isNameWord l = true ∨ l.isPunct ">" = true

theorem NamesType.nil : NamesType [] :=
  ⟨.nil, fun _ h => by cases h⟩

theorem nests_of_nested {ls : List Lexeme} (h : angles.Nested ls) : angleBrackets.Nests ls := by
  induction h with
  | nil => exact .nil
  | @plain l ls hopen hclose _ ih =>
    exact (Brackets.Nests.of_plain (by simpa [Brackets.opens, angleBrackets] using hopen)
      (by simpa [Brackets.closes, angleBrackets] using hclose)).append ih
  | @group opening close inside ls hopen _ hclose _ ihinside ih =>
    have hgroup : angleBrackets.IsGroup (opening :: (inside ++ [close])) :=
      .intro (by decide) hopen ihinside hclose
    simpa using hgroup.nests.append ih

theorem isGroup_of_typeArguments {ls taken rest : List Lexeme}
    (h : typeArguments? ls = some (taken, rest)) : taken = [] ∨ angleBrackets.IsGroup taken := by
  cases ls with
  | nil =>
    cases h
    exact .inl rfl
  | cons l ls =>
    rw [typeArguments?] at h
    split at h
    · rename_i hopen
      obtain ⟨⟨t, r⟩, ht, he⟩ := Option.map_eq_some_iff.1 h
      cases he
      obtain ⟨inside, hinside⟩ := untilClose_of_typeArgumentsFrom ht
      obtain ⟨close, hclose, hls, hnested⟩ :=
        (BracketPair.untilClose_eq_some_iff (by decide)).1 hinside
      have hrow : t ++ rest = (inside ++ [close]) ++ rest := by
        rw [← eq_append_of_typeArgumentsFrom ht, hls, List.append_assoc]
        rfl
      rw [List.append_cancel_right hrow]
      exact .inr (.intro (by decide) hopen (nests_of_nested hnested) hclose)
    · cases h
      exact .inl rfl

theorem onlyInside_of_isTypeWord {l : Lexeme} {ls : List Lexeme} (h : isTypeWord l ls = true) :
    isNameWord l = true ∧ angleBrackets.OnlyInside (·.isWord "new") [l] := by
  have hword : isNameWord l = true := by
    unfold isTypeWord at h
    unfold isNameWord
    grind
  have hpunct (p : String) (hp : p ≠ "global") := isPunct_of_isNameWord hword hp
  refine ⟨hword, .singleton ?_ ?_ ?_⟩
  · simpa [Brackets.opens, angleBrackets] using hpunct angles.opening (by decide)
  · simpa [Brackets.closes, angleBrackets] using hpunct angles.closing (by decide)
  · rw [Bool.eq_false_iff]
    intro hnew
    simp only [Lexeme.isWord, Bool.and_eq_true, decide_eq_true_eq] at hnew
    rw [isTypeWord, hnew.2] at h
    simp [nonTypeWords] at h

theorem onlyInside_of_qualifier {ls mark rest : List Lexeme}
    (h : qualifier? ls = some (mark, rest)) :
    angleBrackets.OnlyInside (·.isWord "new") mark := by
  have hpunct {l : Lexeme} {q : String} (hl : l.isPunct q = true)
      (hq : ∀ b ∈ angleBrackets.pairs, b.opening ≠ q ∧ b.closing ≠ q) :
      angleBrackets.OnlyInside (·.isWord "new") [l] := .of_isPunct isIdent_of_isWord hl hq
  unfold qualifier? at h
  split at h
  · split at h
    · rename_i hdot
      cases h
      exact hpunct (Bool.and_eq_true_iff.1 hdot).1 (by decide)
    · split at h
      · split at h
        · rename_i hcolons
          cases h
          obtain ⟨hcolon, hname⟩ := Bool.and_eq_true_iff.1 (Bool.and_eq_true_iff.1 hcolons).1
          exact (hpunct hcolon (by decide)).append (hpunct hname (by decide))
        · cases h
      · cases h
  · cases h

theorem namesType_of_typeName {ls name rest : List Lexeme}
    (h : typeName? ls = some (name, rest)) : NamesType name := by
  have hpart {l : Lexeme} {row arguments after : List Lexeme} (hl : isTypeWord l row = true)
      (harguments : typeArguments? row = some (arguments, after)) :
      NamesType (l :: arguments) := by
    obtain ⟨hword, hl⟩ := onlyInside_of_isTypeWord hl
    rcases isGroup_of_typeArguments harguments with rfl | hgroup
    · exact ⟨hl, fun m hm => by cases hm; exact .inl hword⟩
    · refine ⟨hl.append (.of_isGroup isIdent_of_isWord hgroup), fun m hm => .inr ?_⟩
      have hlast := hgroup.isEnclosed.last
      cases harg : arguments.getLast? with
      | none =>
        rw [harg] at hlast
        cases hlast
      | some close =>
        rw [List.getLast?_cons, harg] at hm
        rw [harg] at hlast
        cases hm
        simpa [Brackets.closes, angleBrackets, angles] using hlast
  fun_induction typeName? ls generalizing name with
  | case1 => cases h
  | case2 => cases h
  | case3 l ls hl arguments after harguments hqualifier =>
    cases h
    exact hpart hl harguments
  | case4 l ls hl arguments after harguments mark next hqualifier ih =>
    obtain ⟨⟨more, r⟩, hmore, he⟩ := Option.map_eq_some_iff.1 h
    cases he
    obtain ⟨honly, hlast⟩ := ih hmore
    refine ⟨((hpart hl harguments).onlyInside.append (onlyInside_of_qualifier hqualifier)).append
      honly, fun m hm => hlast m ?_⟩
    rwa [List.getLast?_append_of_ne_nil _ (eq_append_of_typeName hmore).2] at hm
  | case5 => cases h

/-! ## What a creation expression names -/

/-- The lexeme that a type ends with, before its marks. -/
def typeEnd? (ls : List Lexeme) : Option Lexeme :=
  (ls.reverse.dropWhile isTypeMark).head?

theorem typeEnd?_append {ls marks : List Lexeme} (hmarks : ∀ l ∈ marks, isTypeMark l = true)
    (hlast : ∀ l ∈ ls.getLast?, isTypeMark l = false) :
    typeEnd? (ls ++ marks) = ls.getLast? := by
  rw [typeEnd?, List.reverse_append,
    List.dropWhile_append_of_pos (fun l hl => hmarks l (List.mem_reverse.1 hl))]
  rw [← List.head?_reverse] at hlast ⊢
  cases hrow : ls.reverse with
  | nil => rfl
  | cons l rest =>
    rw [hrow] at hlast
    rw [List.dropWhile_cons_of_neg (by simp [hlast l rfl])]

theorem typeEnd?_of_closes {ls marks : List Lexeme} (hmarks : ∀ l ∈ marks, isTypeMark l = true)
    (h : ls.getLast?.any brackets.closes = true) :
    (typeEnd? (ls ++ marks)).any brackets.closes = true := by
  rw [typeEnd?_append hmarks fun l hl => ?_]
  · exact h
  · rw [hl] at h
    rw [Bool.eq_false_iff]
    intro hmark
    have hplain : brackets.closes l = false := by
      rcases Bool.or_eq_true_iff.1 hmark with hmark | hmark
      · exact (Brackets.plain_of_isPunct hmark (by decide)).2
      · exact (Brackets.plain_of_isPunct hmark (by decide)).2
    exact absurd h (by simp [hplain])

/-- The end of a name is no bracket that closes a list. -/
theorem typeEnd?_of_namesType {before name marks : List Lexeme} (h : NamesType (before ++ name))
    (hmarks : ∀ l ∈ marks, isTypeMark l = true) :
    (typeEnd? (name ++ marks)).any brackets.closes = false := by
  have hlast : ∀ l ∈ name.getLast?, isTypeMark l = false ∧ brackets.closes l = false := by
    intro l hl
    have hend := h.last l (by rw [List.getLast?_append, hl]; rfl)
    rcases hend with hword | hclose
    · have hpunct (p : String) (hp : p ≠ "global") := isPunct_of_isNameWord hword hp
      simp [isTypeMark, Brackets.closes, brackets, BracketPair.parens, BracketPair.squares,
        BracketPair.braces, hpunct]
    · refine ⟨?_, (Brackets.plain_of_isPunct hclose (by decide)).2⟩
      rw [isTypeMark, BracketPair.isPunct_eq_false (by decide) hclose,
        BracketPair.isPunct_eq_false (by decide) hclose]
      rfl
  rw [typeEnd?_append hmarks fun l hl => (hlast l hl).1]
  cases hend : name.getLast? with
  | none => rfl
  | some l => exact (hlast l hend).2

/-- A creation expression is the word `new` and the name of a type or a tuple type, if it names any,
with its marks. -/
def Creates (new : Lexeme) (parts : List Lexeme) : Prop :=
  new.isWord "new" = true ∧ ∃ name marks, parts = name ++ marks ∧
    (∀ l ∈ marks, isTypeMark l = true) ∧ (NamesType name ∨ brackets.IsGroup name)

theorem creates_of_typeRef {new : Lexeme} (hnew : new.isWord "new" = true) {ls rest : List Lexeme}
    (hls : brackets.Completes ls) {type : TypeRef} (h : typeRef? ls = some (type, rest)) :
    Creates new type.parts := by
  obtain ⟨⟨name, after⟩, hname, hlevels⟩ := Option.bind_eq_some_iff.1 h
  obtain ⟨⟨levels, r⟩, hlevels, he⟩ := Option.map_eq_some_iff.1 hlevels
  cases he
  refine ⟨hnew, name, _, rfl, List.all_eq_true.1 List.all_takeWhile, ?_⟩
  split at hname
  · have hrow := (eq_append_of_tuple hname).1
    obtain ⟨⟨inside, r⟩, hgroup, he⟩ := Option.map_eq_some_iff.1 hname
    obtain ⟨group, hls, hgroup, -⟩ := Brackets.isGroup_of_group (by decide) hls hgroup
    obtain rfl : r = after := congrArg Prod.snd he
    obtain rfl := List.append_cancel_right (hrow.symm.trans hls)
    exact .inr hgroup
  · exact .inl (namesType_of_typeName hname)

/-- Marks are no angle brackets. -/
theorem nests_of_isTypeMark {marks : List Lexeme} (h : ∀ l ∈ marks, isTypeMark l = true) :
    angleBrackets.Nests marks := by
  induction marks with
  | nil => exact .nil
  | cons l marks ih =>
    obtain ⟨hopens, hcloses⟩ :
        angleBrackets.opens l = false ∧ angleBrackets.closes l = false := by
      rcases Bool.or_eq_true_iff.1 (h l List.mem_cons_self) with hmark | hmark
      · exact Brackets.plain_of_isPunct hmark (by decide)
      · exact Brackets.plain_of_isPunct hmark (by decide)
    exact (Brackets.Nests.of_plain hopens hcloses).append
      (ih fun m hm => h m (List.mem_cons_of_mem l hm))

/-- A word in what a creation expression names stands in the name, not among its marks. -/
theorem exists_name_of_isIdent {before behind name marks : List Lexeme} {l : Lexeme}
    (hl : l.isIdent = true) (hmarks : ∀ l ∈ marks, isTypeMark l = true)
    (h : before ++ l :: behind = name ++ marks) :
    ∃ inside, name = before ++ l :: inside ∧ behind = inside ++ marks := by
  have hrow : (before ++ [l]) ++ behind = name ++ marks := by
    rw [← h, List.append_assoc]
    rfl
  rcases List.append_eq_append_iff.1 hrow with ⟨inside, rfl, rfl⟩ | ⟨more, hname, rfl⟩
  · exact ⟨inside, by simp, rfl⟩
  · rcases List.eq_nil_or_concat more with rfl | ⟨front, mark, rfl⟩
    · exact ⟨[], by simpa using hname.symm, rfl⟩
    · rw [List.concat_eq_append, ← List.append_assoc] at hname
      obtain rfl : l = mark := by simpa using (List.append_inj' hname rfl).2
      have hmark := hmarks l (by simp)
      simp only [Lexeme.isIdent, decide_eq_true_eq] at hl
      simp [isTypeMark, Lexeme.isPunct, hl] at hmark

/-- What stands behind a word in type arguments is not the beginning of what a creation expression
names: nothing that is named closes the angle brackets. -/
theorem not_prefix_of_namesType {before inside marks name' marks' : List Lexeme} {new : Lexeme}
    (hnew : new.isWord "new" = true) (hname : NamesType (before ++ new :: inside))
    (hmarks : ∀ l ∈ marks, isTypeMark l = true) (hbehind : brackets.Nests (inside ++ marks))
    (hmarks' : ∀ l ∈ marks', isTypeMark l = true)
    (hname' : NamesType name' ∨ brackets.IsGroup name') :
    ¬inside ++ marks <+: name' ++ marks' := by
  have hrow : before ++ new :: inside = (before ++ [new]) ++ inside := by simp
  have hnested := hname.onlyInside.nests
  have hend := hname
  rw [hrow] at hnested hend
  replace hend := typeEnd?_of_namesType hend hmarks
  have hopen : ¬angleBrackets.Nests (before ++ [new]) := by
    intro hbefore
    have hbefore := hbefore.of_append_right (.of_isIdent (isIdent_of_isWord new hnew))
    rw [hname.onlyInside.outside before new inside rfl hbefore] at hnew
    cases hnew
  rintro ⟨more, hmore⟩
  rcases hname' with hname' | hgroup'
  · have hparts := hname'.onlyInside.nests.append (nests_of_isTypeMark hmarks')
    rw [← hmore, List.append_assoc] at hparts
    exact hopen (hnested.of_overlap hparts).1
  · rcases List.append_eq_append_iff.1 hmore with ⟨rest, rfl, -⟩ | ⟨passed, hpassed, rfl⟩
    · -- the whole group would be what stands behind the word
      by_cases hnil : inside ++ marks = []
      · rw [(List.append_eq_nil_iff.1 hnil).1, List.append_nil] at hnested
        exact hopen hnested
      · obtain rfl := hgroup'.eq_nil_of_append hbehind hnil
        have hlast := hgroup'.isEnclosed.last
        rw [List.append_nil] at hlast
        have hcloses := typeEnd?_of_closes (List.forall_mem_nil _) hlast
        rw [List.append_nil, hend] at hcloses
        cases hcloses
    · have hcloses := typeEnd?_of_closes
        (fun l hl => hmarks' l (List.mem_append_left more hl)) hgroup'.isEnclosed.last
      rw [← hpassed, hend] at hcloses
      cases hcloses

theorem apart : Apart brackets Creates := by
  rintro new new' before behind parts groups rest ⟨-, name, marks, hrow, hmarks, hname⟩
    ⟨hnew, name', marks', rfl, hmarks', hname'⟩ hbefore hbehind hparts hgroups heq
  obtain ⟨inside, rfl, rfl⟩ := exists_name_of_isIdent (isIdent_of_isWord new' hnew) hmarks hrow
  rcases hname with hname | hgroup
  · have hbeginning := not_prefix_of_namesType hnew hname hmarks hbehind hmarks' hname'
    rcases List.append_eq_append_iff.1 heq with ⟨more, hparts', -⟩ | ⟨more, hmore, rfl⟩
    · exact hbeginning ⟨more, hparts'.symm⟩
    · -- the part that reaches into the lists ends with one of their brackets
      by_cases hnil : more = []
      · rw [hnil, List.append_nil] at hmore
        exact hbeginning (hmore ▸ List.prefix_refl _)
      · rw [hmore] at hbehind
        have hlists := (hgroups.of_append (hbehind.of_append_left hparts)).1
        have hlast : ((name' ++ marks') ++ more).getLast?.any brackets.closes = true := by
          rw [List.getLast?_append_of_ne_nil _ hnil]
          exact (hlists.isEnclosed hnil).last
        have hcloses := typeEnd?_of_closes (List.forall_mem_nil _) hlast
        have hrow' : before ++ new' :: inside = (before ++ [new']) ++ inside := by simp
        rw [List.append_nil, ← hmore, typeEnd?_of_namesType (hrow' ▸ hname) hmarks] at hcloses
        cases hcloses
  · have hplain := (Brackets.OnlyInside.of_isGroup isIdent_of_isWord hgroup).outside before new'
      inside rfl hbefore
    rw [hnew] at hplain
    cases hplain

/-! ## Sites -/

theorem parts_readWith (t : ElementType) (ls : List Lexeme) : (t.readWith ls).parts = t.parts := by
  unfold ElementType.readWith
  split <;> rfl

theorem isStretch_of_creation {ls : List Lexeme} {s : Site} (hls : brackets.Completes ls)
    (hparts : brackets.Nests s.element.parts) (h : creation? ls = some s) :
    s.IsStretch brackets Creates ls := by
  have hnested {type : TypeRef} {shown : List Lexeme}
      (h : brackets.Nests (type.element.readWith shown).parts) : brackets.Nests type.parts := by
    rw [parts_readWith] at h
    exact (Brackets.due?_withoutNewlines [] _).symm.trans h
  cases isCreation_of_creation h with
  | @inferred new _ inside _ _ after hnew hsquares hbraces =>
    replace hls := hls.of_suffix (List.suffix_cons new _)
    obtain ⟨level, rfl, hlevel, hwidth⟩ := Brackets.isGroup_of_group (by decide) hls hsquares
    obtain ⟨list, rfl, hlist, hlength⟩ :=
      Brackets.isGroup_of_group (by decide) hls.of_append hbraces
    refine ⟨[], new :: ([] ++ (level ++ list)), after, by simp, rfl, ?_, ?_⟩
    · simp [hwidth, hlength]
      omega
    · refine .creation (isIdent_of_isWord new hnew) ⟨hnew, [], [], rfl, by simp, .inl .nil⟩ .nil
        (.cons hlevel (.singleton hlist)) fun hnil => ?_
      rw [(List.append_eq_nil_iff.1 hnil).1] at hwidth
      cases hwidth
  | @listed new _ _ _ after type _ _ hnew htype hlevels hbraces =>
    replace hls := hls.of_suffix (List.suffix_cons new _)
    have hcreates := creates_of_typeRef hnew hls htype
    obtain ⟨lists, rfl, -, harray⟩ := eq_append_of_typeRef htype
    obtain ⟨groups, rfl, hgroups, hne⟩ :=
      Brackets.areGroups_of_arrayLevels (by decide) hls.of_append harray
    obtain ⟨list, rfl, hlist, -⟩ :=
      Brackets.isGroup_of_group (by decide) hls.of_append.of_append hbraces
    refine ⟨[], new :: (type.parts ++ (groups ++ list)), after, by simp, rfl, ?_, ?_⟩
    · simp
      omega
    · exact .creation (isIdent_of_isWord new hnew) hcreates (hnested hparts)
        (hgroups.append (.singleton hlist)) (by simp [hne (by simp [hlevels])])
  | @unlisted new _ rest type _ _ hnew htype hlevels =>
    replace hls := hls.of_suffix (List.suffix_cons new _)
    have hcreates := creates_of_typeRef hnew hls htype
    obtain ⟨lists, rfl, -, harray⟩ := eq_append_of_typeRef htype
    obtain ⟨groups, rfl, hgroups, hne⟩ :=
      Brackets.areGroups_of_arrayLevels (by decide) hls.of_append harray
    refine ⟨[], new :: (type.parts ++ groups), rest, by simp, rfl, ?_, ?_⟩
    · simp
      omega
    · exact .creation (isIdent_of_isWord new hnew) hcreates (hnested hparts) hgroups
        (hne (by simp [hlevels]))

theorem isStretch_of_paramArrayCall {arrays : List ParamArray} {before ls : List Lexeme} {s : Site}
    (hls : brackets.Completes ls) (h : paramArrayCall? arrays before ls = some s) :
    s.IsStretch brackets Creates ls := by
  obtain ⟨array, -, name, args, inside, rest, rfl, hname, hgroup, rfl⟩ :=
    exists_callSite_of_paramArrayCall h
  exact array.isStretch_callSite hname (by decide) (hls.of_suffix (List.suffix_cons name args))
    hgroup

/-- A site of a file with nested brackets is a stretch of it, if the brackets of its element type
are nested. -/
theorem isStretch_of_mem_sites {ls : List Lexeme} {s : Site} (hls : brackets.Nests ls)
    (hparts : brackets.Nests s.element.parts) (h : s ∈ sites ls) :
    s.IsStretch brackets Creates ls := by
  refine isStretch_of_mem_collected (fun before here hhere found hfound helement => ?_) h
  have hcompletes : brackets.Completes here := Brackets.Completes.of_suffix ⟨[], hls⟩ hhere
  rw [← helement] at hparts
  simp only [List.mem_append, Option.mem_toList] at hfound
  rcases hfound with (hfound | hfound) | hfound
  · exact isStretch_of_creation hcompletes hparts hfound
  · obtain ⟨_, _, _, _, -, -, -, hlist⟩ := exists_isListOn_of_mem_declarationSites hfound
    exact .of_isListOn (by decide) hcompletes hlist
  · exact isStretch_of_paramArrayCall hcompletes hfound

end ZeroAlloc.CSharp

import ZeroAlloc.Proofs.Site.Backward
import ZeroAlloc.Proofs.Site.Distinct
import ZeroAlloc.Proofs.VisualBasic.Extent
set_option autoImplicit false

/-! # Declarations of Visual Basic, read backwards

An initializer list on a declared array tells where its declaration starts
(`DeclarationStarts.unique`): in front of the equals sign stands the type, whose levels, mark and
parts of the name are read back up to the word `As`. A bracketed list that starts with `Of` is none
of the levels. -/

namespace ZeroAlloc.VisualBasic

/-! ## Steps backwards

A place is given by the lexemes before it, nearest first. -/

/-- The place before the level that ends here. -/
def beforeLevel? (before : List Lexeme) : Option (List Lexeme) :=
  (BracketPair.parens.flip.group? before).bind fun (inside, before) =>
    if startsWithKeyword "of" inside.reverse then none else some before

/-- The place before the part of a name that ends here, possibly with type arguments. -/
def beforePart? (before : List Lexeme) : Option (List Lexeme) :=
  let word :=
    if startsWithPunct ")" before then (BracketPair.parens.flip.group? before).map Prod.snd
    else some before
  word.bind fun before => if startsWithIdent before then some before.tail else none

/-- The end of the part before the one that ends here. -/
def previousPart? (before : List Lexeme) : Option (List Lexeme) :=
  (beforePart? before).bind fun before =>
    if startsWithPunct "." before then some before.tail else none

/-! ## Starts -/

/-- The name of a type that ends at a place starts at another. -/
def NameStarts (place start : List Lexeme) : Prop :=
  ∃ first, RunsTo previousPart? place first ∧ beforePart? first = some start

/-- The type that ends at a place starts at another. -/
def TypeStarts (place start : List Lexeme) : Prop :=
  ∃ mark, RunsTo beforeLevel? place mark ∧
    NameStarts (if startsWithPunct "?" mark then mark.tail else mark) start

/-- The declaration with an initializer list at a place starts at another, with one word in front
of the type. -/
def DeclarationStarts (place start : List Lexeme) : Prop :=
  ∃ word, TypeStarts (place.dropWhile Lexeme.isNewline).tail (word :: start)

theorem TypeStarts.unique {place start other : List Lexeme} (h : TypeStarts place start)
    (hother : TypeStarts place other) : start = other := by
  obtain ⟨mark, hmark, first, hfirst, hstart⟩ := h
  obtain ⟨mark', hmark', first', hfirst', hother⟩ := hother
  obtain rfl := hmark.unique hmark'
  obtain rfl := hfirst.unique hfirst'
  exact Option.some.inj (hstart.symm.trans hother)

theorem DeclarationStarts.unique {place start other : List Lexeme}
    (h : DeclarationStarts place start) (hother : DeclarationStarts place other) :
    start = other := by
  obtain ⟨word, h⟩ := h
  obtain ⟨word', hother⟩ := hother
  exact (List.cons.inj (h.unique hother)).2

/-! ## Names -/

/-- A name ends where no level and no mark ends. -/
structure EndsName (place : List Lexeme) : Prop where
  level : beforeLevel? place = none
  mark : startsWithPunct "?" place = false

/-- A part of a name can be read back from its end. -/
theorem beforePart?_of_typeArguments {l : Lexeme} {ls taken rest : List Lexeme}
    (hl : l.isIdent = true) (h : typeArguments? ls = some (taken, rest)) (before : List Lexeme) :
    beforePart? (taken.reverse ++ l :: before) = some before ∧
      EndsName (taken.reverse ++ l :: before) := by
  have hls := eq_append_of_typeArguments h
  have hword : startsWithIdent (l :: before) = true := hl
  unfold typeArguments? at h
  split at h
  · rename_i hof
    obtain ⟨⟨inside, r⟩, hgroup, he⟩ := Option.map_eq_some_iff.1 h
    rw [startsTypeArguments_of_group hgroup] at hof
    obtain ⟨group, hrow, -, hback⟩ := BracketPair.group?_reverse (by decide) hgroup
    obtain rfl : r = rest := congrArg Prod.snd he
    obtain rfl := List.append_cancel_right (hls.symm.trans hrow)
    obtain ⟨hclose, hgroup⟩ := hback (l :: before)
    refine ⟨?_, ?_, startsWithPunct_eq_false (by decide) hclose⟩
    · rw [beforePart?, if_pos (by exact hclose), hgroup]
      simp [hword]
    · rw [beforeLevel?, hgroup]
      simp [hof]
  · cases h
    have hnone (p : String) : startsWithPunct p (l :: before) = false :=
      startsWithPunct_eq_false_of_startsWithIdent hword p
    refine ⟨?_, ?_, hnone _⟩
    · simp [beforePart?, hnone, hword]
    · simp [beforeLevel?, group_eq_none (hnone _)]

/-- A name can be read back part by part, and its first part up to its start. -/
theorem exists_first_of_typeName {ls name rest : List Lexeme}
    (h : typeName? ls = some (name, rest)) (before : List Lexeme) :
    EndsName (name.reverse ++ before) ∧ ∃ first,
      LeadsTo previousPart? (name.reverse ++ before) first ∧ beforePart? first = some before := by
  fun_induction typeName? ls generalizing name before with
  | case1 => cases h
  | case2 => cases h
  | case3 l ls hword arguments dot after harguments hdot ih =>
    obtain ⟨⟨more, r⟩, hmore, he⟩ := Option.map_eq_some_iff.1 h
    cases he
    have hpart := (beforePart?_of_typeArguments (Bool.and_eq_true_iff.1 hword).1 harguments
      before).1
    obtain ⟨hends, first, hleads, hfirst⟩ := ih hmore (dot :: (arguments.reverse ++ l :: before))
    have hname : (l :: arguments ++ dot :: more).reverse ++ before =
        more.reverse ++ dot :: (arguments.reverse ++ l :: before) := by simp
    rw [hname]
    refine ⟨hends, _, hleads.tail ?_, hpart⟩
    rw [previousPart?, hfirst]
    exact if_pos (Bool.and_eq_true_iff.1 hdot).1
  | case4 l ls hword arguments dot after harguments hdot =>
    cases h
    obtain ⟨hpart, hends⟩ := beforePart?_of_typeArguments (Bool.and_eq_true_iff.1 hword).1
      harguments before
    rw [List.reverse_cons, List.append_assoc]
    exact ⟨hends, _, .refl, hpart⟩
  | case5 l ls hword arguments harguments =>
    cases h
    obtain ⟨hpart, hends⟩ := beforePart?_of_typeArguments (Bool.and_eq_true_iff.1 hword).1
      harguments before
    rw [List.reverse_cons, List.append_assoc]
    exact ⟨hends, _, .refl, hpart⟩
  | case6 => cases h

/-! ## Types and declarations -/

/-- A type can be read back from its end, if no name goes on in front of it. -/
theorem typeStarts_of_typeRef {ls rest : List Lexeme} {type : TypeRef}
    (h : typeRef? ls = some (type, rest)) {before : List Lexeme}
    (hbefore : startsWithPunct "." before = false) :
    ∃ taken, ls = taken ++ rest ∧ TypeStarts (taken.reverse ++ before) before := by
  obtain ⟨⟨name, after⟩, hname, hlevels⟩ := Option.bind_eq_some_iff.1 h
  obtain ⟨⟨levels, r⟩, hlevels, he⟩ := Option.map_eq_some_iff.1 hlevels
  cases he
  obtain ⟨hends, first, hleads, hfirst⟩ := exists_first_of_typeName hname before
  have hstart : NameStarts (name.reverse ++ before) before := by
    refine ⟨first, ⟨hleads, ?_⟩, hfirst⟩
    rw [previousPart?, hfirst, Option.bind_some, hbefore]
    rfl
  obtain ⟨lists, hlists, hback, -⟩ := @leadsTo_of_arrayLevels .parens (by decide) _ beforeLevel?
    (fun _ inside _ _ hlevel hgroup hback before => by
      rw [startsTypeArguments_of_group hgroup, Bool.not_eq_true'] at hlevel
      rw [beforeLevel?, hback]
      simp [hlevel]) _ _ _ hlevels
  by_cases hmark : startsWithPunct "?" after = true
  · rw [if_pos hmark] at hlists
    obtain ⟨l, more, rfl⟩ : ∃ l more, after = l :: more := by
      cases after with
      | nil => cases hmark
      | cons l more => exact ⟨l, more, rfl⟩
    refine ⟨name ++ l :: lists, ?_, l :: (name.reverse ++ before), ⟨?_, ?_⟩, ?_⟩
    · rw [(eq_append_of_typeName hname).1, List.append_assoc, List.cons_append, ← hlists]
      rfl
    · simpa using hback (l :: (name.reverse ++ before))
    · have hclose : startsWithPunct ")" (l :: (name.reverse ++ before)) = false :=
        BracketPair.isPunct_eq_false (by decide) hmark
      rw [beforeLevel?, group_eq_none hclose]
      rfl
    · rw [if_pos (by exact hmark)]
      exact hstart
  · rw [if_neg hmark] at hlists
    refine ⟨name ++ lists, ?_, name.reverse ++ before, ⟨?_, hends.level⟩, ?_⟩
    · rw [(eq_append_of_typeName hname).1, List.append_assoc, ← hlists]
      rfl
    · simpa using hback (name.reverse ++ before)
    · rw [hends.mark]
      exact hstart

/-- The initializer list of a declaration tells where the declaration starts. -/
theorem isFoundFrom_of_declarationSite {before ls : List Lexeme} {s : Site}
    (h : declarationSite? before ls = some s) :
    s.IsFoundFrom DeclarationStarts before ls ∧ 0 < s.first := by
  cases isDeclaration_of_declarationSite h with
  | @intro word mark ls lines list contents _ type _ _ _ hword htype hmark hlines _ _ _ hbraces =>
    obtain ⟨opening, close, hopening, -, hlist⟩ := BracketPair.eq_append_of_group hbraces
    have hbrace : startsWithPunct "\x7b" list = true := by
      rw [hlist]
      exact hopening
    have hpoint : startsWithPunct "." (word :: before) = false :=
      startsWithPunct_eq_false_of_startsWithIdent (by exact (Bool.and_eq_true_iff.1 hword).1) "."
    obtain ⟨taken, rfl, hstart⟩ := typeStarts_of_typeRef htype hpoint
    have hrow : word :: (taken ++ mark :: (lines ++ list)) =
        word :: taken ++ mark :: lines ++ list := by simp
    have hfirst : (word :: (taken ++ mark :: (lines ++ list))).length - list.length =
        (word :: taken ++ mark :: lines).length := by
      rw [hrow, List.length_append, Nat.add_sub_cancel]
    refine ⟨⟨_, _, hrow, hfirst, .inr ⟨startsWithIdent_eq_false hbrace, word, ?_⟩⟩,
      lt_of_lt_of_eq (Nat.succ_pos _) hfirst.symm⟩
    -- the line breaks and the equals sign are passed over
    have hplace : ((word :: taken ++ mark :: lines).reverse ++ before) =
        lines.reverse ++ mark :: (taken.reverse ++ word :: before) := by simp
    have hequals : mark.isNewline = false := by
      simp only [Lexeme.isPunct, Bool.and_eq_true, decide_eq_true_eq] at hmark
      simp [Lexeme.isNewline, hmark.1]
    rw [hplace, List.dropWhile_append_of_pos fun l hl => hlines l (List.mem_reverse.1 hl),
      List.dropWhile_cons_of_neg (by simp [hequals])]
    exact hstart

/-! ## Sites -/

/-- A creation expression starts with a word, at its place. -/
theorem first_of_creation {ls : List Lexeme} {s : Site} (h : creation? ls = some s) :
    s.first = 0 ∧ startsWithIdent ls = true := by
  cases isCreation_of_creation h with
  | intro hnew => exact ⟨rfl, (Bool.and_eq_true_iff.1 hnew).1⟩

theorem isCompilerGenerated_of_paramArrayCall {arrays : List ParamArray} {before ls : List Lexeme}
    {s : Site} (h : paramArrayCall? arrays before ls = some s) :
    s.origin.isCompilerGenerated = true := by
  obtain ⟨array, -, -, -, -, -, -, -, -, rfl⟩ := exists_callSite_of_paramArrayCall h
  rfl

/-- The sites that a source writes down start apart. -/
theorem pairwise_startsApart_sites (ls : List Lexeme) : (sites ls).Pairwise Site.StartsApart := by
  refine pairwise_startsApart_collected
    (fun place start _ (hstarts : DeclarationStarts place start) => hstarts.unique)
    (fun before here s hs => ?_) (fun before here => ?_) _ ls
  · exact s.isFoundFrom_of_mem_recognised (fun _ => first_of_creation)
      (fun _ => isCompilerGenerated_of_paramArrayCall)
      (fun _ h => (isFoundFrom_of_declarationSite (Option.mem_toList.1 h)).1) hs
  · refine pairwise_startsApart_recognised (fun _ => first_of_creation)
      (fun _ => isCompilerGenerated_of_paramArrayCall)
      (fun _ h => (isFoundFrom_of_declarationSite (Option.mem_toList.1 h)).2) ?_
    cases declarationSite? before here with
    | none => exact .nil
    | some s => exact List.pairwise_singleton ..

end ZeroAlloc.VisualBasic

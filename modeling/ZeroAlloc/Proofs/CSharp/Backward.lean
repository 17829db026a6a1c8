import ZeroAlloc.Proofs.CSharp.Extent
import ZeroAlloc.Proofs.Site.Backward
import ZeroAlloc.Proofs.Site.Distinct
set_option autoImplicit false

/-! # Declarations of C#, read backwards

An initializer list on a declared array tells where its declaration starts
(`DeclarationStarts.unique`): the declarators before it are read back up to the end of the type,
then the levels of the type, its marks and the parts of its name. A name goes on in front of a part
exactly if a point or two colons stand there, and no declaration starts behind one. -/

namespace ZeroAlloc.CSharp

/-! ## Steps backwards

A place is given by the lexemes before it, nearest first. -/

/-- The place before the level that ends here. -/
def beforeLevel? (before : List Lexeme) : Option (List Lexeme) :=
  (BracketPair.squares.flip.group? before).map Prod.snd

/-- The place before the nullable or pointer mark that stands here. -/
def beforeMark? : List Lexeme → Option (List Lexeme)
  | [] => none
  | l :: before => if l.isPunct "?" || l.isPunct "*" then some before else none

/-- Angle brackets around type arguments. -/
def angles : BracketPair := ⟨"<", ">"⟩

/-- Whether the lexeme is a word of a name. -/
def isNameWord (l : Lexeme) : Bool :=
  l.isIdent || l.text == "global"

/-- The place before the part of a name that ends here, possibly with type arguments. -/
def beforePart? (before : List Lexeme) : Option (List Lexeme) :=
  let word :=
    if startsWithPunct ">" before then (angles.flip.group? before).map Prod.snd else some before
  word.bind fun
    | l :: before => if isNameWord l then some before else none
    | [] => none

/-- The end of the part before the one that ends here. -/
def previousPart? (before : List Lexeme) : Option (List Lexeme) :=
  (beforePart? before).bind fun before =>
    if startsWithPunct "." before then some before.tail
    else if startsWithPunct ":" before && startsWithPunct ":" before.tail then some (before.drop 2)
    else none

/-- The place before the element list that ends here. -/
def beforeElements? (before : List Lexeme) : Option (List Lexeme) :=
  if startsWithPunct "]" before then (BracketPair.squares.flip.group? before).map Prod.snd
  else (BracketPair.braces.flip.group? before).map Prod.snd

/-- The place of the declarator in front of the one here. -/
def previousDeclarator? (before : List Lexeme) : Option (List Lexeme) :=
  if startsWithPunct "," before then
    if startsWithIdent before.tail then some (before.drop 2)
    else (beforeElements? before.tail).map (·.drop 2)
  else none

/-! ## Starts -/

/-- The name of a type that ends at a place starts at another. -/
def NameStarts (place start : List Lexeme) : Prop :=
  if startsWithPunct ")" place then
    (BracketPair.parens.flip.group? place).map Prod.snd = some start
  else ∃ first, RunsTo previousPart? place first ∧ beforePart? first = some start

/-- The type that ends at a place starts at another. -/
def TypeStarts (place start : List Lexeme) : Prop :=
  ∃ marks name, RunsTo beforeLevel? place marks ∧ RunsTo beforeMark? marks name ∧
    NameStarts name start

/-- The declaration with an initializer list at a place starts at another. -/
def DeclarationStarts (place start : List Lexeme) : Prop :=
  ∃ first, RunsTo previousDeclarator? (place.drop 2) first ∧
    TypeStarts (if startsWithPunct "?" first then first.tail else first) start

theorem NameStarts.unique {place start other : List Lexeme} (h : NameStarts place start)
    (hother : NameStarts place other) : start = other := by
  unfold NameStarts at h hother
  split at h
  · rename_i hclose
    rw [if_pos hclose, h] at hother
    exact Option.some.inj hother
  · rename_i hclose
    rw [if_neg hclose] at hother
    obtain ⟨first, hruns, hstart⟩ := h
    obtain ⟨first', hruns', hother⟩ := hother
    rw [hruns.unique hruns', hother] at hstart
    exact (Option.some.inj hstart).symm

theorem TypeStarts.unique {place start other : List Lexeme} (h : TypeStarts place start)
    (hother : TypeStarts place other) : start = other := by
  obtain ⟨marks, name, hmarks, hname, h⟩ := h
  obtain ⟨marks', name', hmarks', hname', hother⟩ := hother
  obtain rfl := hmarks.unique hmarks'
  obtain rfl := hname.unique hname'
  exact h.unique hother

theorem DeclarationStarts.unique {place start other : List Lexeme}
    (h : DeclarationStarts place start) (hother : DeclarationStarts place other) :
    start = other := by
  obtain ⟨first, hfirst, h⟩ := h
  obtain ⟨first', hfirst', hother⟩ := hother
  obtain rfl := hfirst.unique hfirst'
  exact h.unique hother

/-! ## Names -/

theorem isPunct_of_isNameWord {l : Lexeme} (h : isNameWord l = true) {p : String}
    (hp : p ≠ "global") : l.isPunct p = false := by
  rw [Bool.eq_false_iff]
  intro hpunct
  simp only [Lexeme.isPunct, Bool.and_eq_true, decide_eq_true_eq] at hpunct
  simp only [isNameWord, Lexeme.isIdent, Bool.or_eq_true, decide_eq_true_eq, beq_iff_eq] at h
  rcases h with h | h
  · rw [hpunct.1] at h
    cases h
  · exact hp (hpunct.2.symm.trans h)

/-- Type arguments are a group of angle brackets. -/
theorem untilClose_of_typeArgumentsFrom {depth : Nat} {ls taken rest : List Lexeme}
    (h : typeArgumentsFrom? depth ls = some (taken, rest)) :
    ∃ inside, angles.untilClose depth ls = some (inside, rest) := by
  induction ls generalizing depth taken with
  | nil => cases h
  | cons l ls ih =>
    have more {d : Nat}
        (h : (typeArgumentsFrom? d ls).map (fun p => (l :: p.1, p.2)) = some (taken, rest)) :
        ∃ inside,
          (angles.untilClose d ls).map (fun p => (l :: p.1, p.2)) = some (inside, rest) := by
      obtain ⟨⟨t, r⟩, ht, he⟩ := Option.map_eq_some_iff.1 h
      cases he
      obtain ⟨inside, hinside⟩ := ih ht
      exact ⟨l :: inside, by rw [hinside]; rfl⟩
    unfold typeArgumentsFrom? at h
    unfold BracketPair.untilClose
    split at h
    · rename_i hclose
      have hopen : l.isPunct "<" = false := BracketPair.isPunct_eq_false (by decide) hclose
      rw [if_neg (by rw [angles, hopen]; decide), if_pos (by exact hclose)]
      cases depth with
      | zero =>
        cases h
        exact ⟨[], rfl⟩
      | succ depth => exact more h
    · rename_i hclose
      split at h
      · rename_i hopen
        rw [if_pos (by exact hopen)]
        exact more h
      · rename_i hopen
        rw [if_neg (by exact hopen), if_neg (by exact hclose)]
        split at h
        · exact more h
        · cases h

/-- A part of a name can be read back from its end. -/
theorem beforePart?_of_typeArguments {l : Lexeme} {ls taken rest : List Lexeme}
    (hword : isNameWord l = true) (h : typeArguments? ls = some (taken, rest))
    (before : List Lexeme) : beforePart? (taken.reverse ++ l :: before) = some before := by
  have hplain : beforePart? (l :: before) = some before := by
    have hclose : startsWithPunct ">" (l :: before) = false :=
      isPunct_of_isNameWord hword (by decide)
    simp [beforePart?, hclose, hword]
  have hls := eq_append_of_typeArguments h
  cases ls with
  | nil =>
    cases h
    exact hplain
  | cons opening row =>
    rw [typeArguments?] at h
    split at h
    · rename_i hopen
      obtain ⟨⟨more, after⟩, hmore, he⟩ := Option.map_eq_some_iff.1 h
      cases he
      obtain ⟨inside, hinside⟩ := untilClose_of_typeArgumentsFrom hmore
      have hgroup : angles.group? (opening :: row) = some (inside, rest) := by
        rw [BracketPair.group?, if_pos (by exact hopen), hinside]
      obtain ⟨group, hrow, -, hback⟩ := BracketPair.group?_reverse (by decide) hgroup
      obtain rfl := List.append_cancel_right (hls.symm.trans hrow)
      obtain ⟨hclose, hgroup⟩ := hback (l :: before)
      rw [beforePart?, if_pos (by exact hclose), hgroup]
      simp [hword]
    · cases h
      exact hplain

theorem isNameWord_of_isTypeWord {l : Lexeme} {ls : List Lexeme} (h : isTypeWord l ls = true) :
    isNameWord l = true := by
  simp only [isTypeWord, Bool.or_eq_true, Bool.and_eq_true] at h
  rw [isNameWord, Bool.or_eq_true]
  exact h.imp And.left And.left

/-- In front of a part that a point or two colons join to another one, this one ends. -/
theorem previousPart?_of_qualifier {place before ls mark next : List Lexeme}
    (hpart : beforePart? place = some (mark.reverse ++ before))
    (h : qualifier? ls = some (mark, next)) : previousPart? place = some before := by
  rw [previousPart?, hpart, Option.bind_some]
  unfold qualifier? at h
  split at h
  · rename_i dot name ls
    split at h
    · rename_i hdot
      cases h
      exact if_pos (Bool.and_eq_true_iff.1 hdot).1
    · split at h
      · split at h
        · rename_i hcolons
          cases h
          simp only [Bool.and_eq_true] at hcolons
          have hdot : name.isPunct "." = false :=
            BracketPair.isPunct_eq_false (by decide) hcolons.1.2
          change (if name.isPunct "." then _ else if name.isPunct ":" && dot.isPunct ":" then _
            else _) = _
          rw [hdot, hcolons.1.2, hcolons.1.1]
          rfl
        · cases h
      · cases h
  · cases h

/-- A name can be read back part by part, and its first part up to its start. -/
theorem exists_first_of_typeName {ls name rest : List Lexeme}
    (h : typeName? ls = some (name, rest)) (before : List Lexeme) :
    ∃ first, LeadsTo previousPart? (name.reverse ++ before) first ∧
      beforePart? first = some before := by
  fun_induction typeName? ls generalizing name before with
  | case1 => cases h
  | case2 => cases h
  | case3 l ls hword arguments after harguments hqualifier =>
    cases h
    refine ⟨_, .refl, ?_⟩
    rw [List.reverse_cons, List.append_assoc]
    exact beforePart?_of_typeArguments (isNameWord_of_isTypeWord hword) harguments before
  | case4 l ls hword arguments after harguments mark next hqualifier ih =>
    obtain ⟨⟨more, r⟩, hmore, he⟩ := Option.map_eq_some_iff.1 h
    cases he
    -- the part in front of the mark ends where the mark starts
    have hpart := beforePart?_of_typeArguments (isNameWord_of_isTypeWord hword) harguments before
    obtain ⟨first, hleads, hfirst⟩ :=
      ih hmore (mark.reverse ++ ((l :: arguments).reverse ++ before))
    refine ⟨(l :: arguments).reverse ++ before, ?_, by simpa using hpart⟩
    have hname : (l :: arguments ++ mark ++ more).reverse ++ before =
        more.reverse ++ (mark.reverse ++ ((l :: arguments).reverse ++ before)) := by simp
    rw [hname]
    exact hleads.tail (previousPart?_of_qualifier hfirst hqualifier)
  | case5 => cases h

/-! ## Types -/

/-- A name ends with a word, with type arguments or, if it is a tuple, with a bracket. -/
def EndsName (place : List Lexeme) : Prop :=
  ∃ l before, place = l :: before ∧
    (isNameWord l = true ∨ l.isPunct ">" = true ∨ l.isPunct ")" = true)

theorem EndsName.startsWithPunct_eq_false {place : List Lexeme} (h : EndsName place) {p : String}
    (hp : p ∉ [">", ")", "global"]) : startsWithPunct p place = false := by
  simp only [List.mem_cons, List.not_mem_nil, or_false, not_or] at hp
  obtain ⟨l, before, rfl, hword | hclose | hclose⟩ := h
  · exact isPunct_of_isNameWord hword hp.2.2
  · exact BracketPair.isPunct_eq_false hp.1 hclose
  · exact BracketPair.isPunct_eq_false hp.2.1 hclose

theorem EndsName.beforeMark?_eq_none {place : List Lexeme} (h : EndsName place) :
    beforeMark? place = none := by
  have hnullable := h.startsWithPunct_eq_false (p := "?") (by decide)
  have hpointer := h.startsWithPunct_eq_false (p := "*") (by decide)
  obtain ⟨l, before, rfl, -⟩ := h
  rw [startsWithPunct_cons] at hnullable hpointer
  simp [beforeMark?, hnullable, hpointer]

/-- Behind a name and its marks stands no level. -/
theorem beforeLevel?_of_marks {place marks : List Lexeme}
    (h : ∀ l ∈ marks, (l.isPunct "?" || l.isPunct "*") = true) (hplace : EndsName place) :
    beforeLevel? (marks.reverse ++ place) = none := by
  have hopen : startsWithPunct "]" (marks.reverse ++ place) = false := by
    cases hlast : marks.reverse with
    | nil => exact hplace.startsWithPunct_eq_false (by decide)
    | cons l more =>
      have hl := h l (List.mem_reverse.1 (hlast ▸ List.mem_cons_self))
      rw [List.cons_append, startsWithPunct_cons]
      rcases Bool.or_eq_true_iff.1 hl with hl | hl
      · exact BracketPair.isPunct_eq_false (by decide) hl
      · exact BracketPair.isPunct_eq_false (by decide) hl
  rw [beforeLevel?, group_eq_none hopen]
  rfl

theorem end_of_beforePart {place start : List Lexeme} (h : beforePart? place = some start) :
    ∃ l before, place = l :: before ∧ (isNameWord l = true ∨ l.isPunct ">" = true) := by
  cases place with
  | nil => cases h
  | cons l before =>
    refine ⟨l, before, rfl, ?_⟩
    by_cases hclose : l.isPunct ">" = true
    · exact .inr hclose
    · rw [beforePart?, if_neg (by rwa [startsWithPunct_cons])] at h
      dsimp only [Option.bind_some] at h
      split at h
      · rename_i hword
        exact .inl hword
      · cases h

/-- No name goes on in front of a place with neither a point nor two colons. -/
def StartsName (before : List Lexeme) : Prop :=
  startsWithPunct "." before = false ∧
    (startsWithPunct ":" before && startsWithPunct ":" before.tail) = false

theorem nameStarts_of_typeName {ls name rest : List Lexeme} (h : typeName? ls = some (name, rest))
    {before : List Lexeme} (hbefore : StartsName before) :
    NameStarts (name.reverse ++ before) before ∧ EndsName (name.reverse ++ before) := by
  obtain ⟨first, hleads, hfirst⟩ := exists_first_of_typeName h before
  have hstops : previousPart? first = none := by
    rw [previousPart?, hfirst, Option.bind_some, hbefore.1, hbefore.2]
    rfl
  obtain ⟨start, hstart⟩ : ∃ start, beforePart? (name.reverse ++ before) = some start := by
    by_cases heq : name.reverse ++ before = first
    · exact ⟨before, heq ▸ hfirst⟩
    · obtain ⟨previous, hprevious⟩ := hleads.exists_step heq
      obtain ⟨start, hstart, -⟩ := Option.bind_eq_some_iff.1 hprevious
      exact ⟨start, hstart⟩
  obtain ⟨l, more, hplace, hend⟩ := end_of_beforePart hstart
  have hparen : ¬startsWithPunct ")" (name.reverse ++ before) = true := by
    rw [hplace, startsWithPunct_cons, Bool.not_eq_true]
    rcases hend with hword | hclose
    · exact isPunct_of_isNameWord hword (by decide)
    · exact BracketPair.isPunct_eq_false (by decide) hclose
  refine ⟨?_, l, more, hplace, hend.imp_right .inl⟩
  rw [NameStarts, if_neg hparen]
  exact ⟨first, ⟨hleads, hstops⟩, hfirst⟩

theorem nameStarts_of_tuple {ls name rest : List Lexeme} (h : tuple? ls = some (name, rest))
    (before : List Lexeme) :
    NameStarts (name.reverse ++ before) before ∧ EndsName (name.reverse ++ before) := by
  have hls := (eq_append_of_tuple h).1
  obtain ⟨⟨inside, after⟩, hgroup, he⟩ := Option.map_eq_some_iff.1 h
  obtain ⟨group, hrow, -, hback⟩ := BracketPair.group?_reverse (by decide) hgroup
  obtain rfl : after = rest := congrArg Prod.snd he
  obtain rfl := List.append_cancel_right (hls.symm.trans hrow)
  obtain ⟨hclose, hgroup⟩ := hback before
  refine ⟨?_, ?_⟩
  · rw [NameStarts, if_pos (by exact hclose), hgroup]
    rfl
  · obtain ⟨l, more, hplace⟩ : ∃ l more, name.reverse ++ before = l :: more := by
      cases hplace : name.reverse ++ before with
      | nil =>
        rw [hplace] at hclose
        cases hclose
      | cons l more => exact ⟨l, more, rfl⟩
    rw [hplace] at hclose
    exact ⟨l, more, hplace, .inr (.inr hclose)⟩

theorem leadsTo_of_marks {marks : List Lexeme}
    (h : ∀ l ∈ marks, (l.isPunct "?" || l.isPunct "*") = true) (before : List Lexeme) :
    LeadsTo beforeMark? (marks.reverse ++ before) before := by
  induction marks generalizing before with
  | nil => exact .refl
  | cons l marks ih =>
    rw [List.reverse_cons, List.append_assoc]
    refine (ih (fun m hm => h m (List.mem_cons_of_mem _ hm)) _).tail ?_
    exact if_pos (h l List.mem_cons_self)

/-- A type can be read back from its end. -/
theorem typeStarts_of_typeRef {ls rest : List Lexeme} {type : TypeRef}
    (h : typeRef? ls = some (type, rest)) {before : List Lexeme} (hbefore : StartsName before) :
    ∃ taken, ls = taken ++ rest ∧ TypeStarts (taken.reverse ++ before) before ∧
      (type.levels ≠ [] → startsWithPunct "]" (taken.reverse ++ before) = true) := by
  obtain ⟨⟨name, after⟩, hname, hlevels⟩ := Option.bind_eq_some_iff.1 h
  obtain ⟨⟨levels, r⟩, hlevels, he⟩ := Option.map_eq_some_iff.1 hlevels
  cases he
  obtain ⟨hls, hstart, hends⟩ : ls = name ++ after ∧ NameStarts (name.reverse ++ before) before ∧
      EndsName (name.reverse ++ before) := by
    split at hname
    · exact ⟨(eq_append_of_tuple hname).1, nameStarts_of_tuple hname before⟩
    · exact ⟨(eq_append_of_typeName hname).1, nameStarts_of_typeName hname hbefore⟩
  obtain ⟨lists, hlists, hleads, hclose⟩ := @leadsTo_of_arrayLevels .squares (by decide) _
    beforeLevel? (fun _ _ _ _ _ _ hback before => by rw [beforeLevel?, hback]; rfl) _ _ _ hlevels
  let marks := after.takeWhile fun l => l.isPunct "?" || l.isPunct "*"
  have hmarks : ∀ l ∈ marks, (l.isPunct "?" || l.isPunct "*") = true :=
    List.all_eq_true.1 List.all_takeWhile
  refine ⟨name ++ marks ++ lists, ?_, ?_, fun hne => ?_⟩
  · rw [List.append_assoc, List.append_assoc, ← hlists, List.takeWhile_append_dropWhile, hls]
  · rw [List.reverse_append, List.reverse_append, List.append_assoc, List.append_assoc]
    exact ⟨_, _, ⟨hleads _, beforeLevel?_of_marks hmarks hends⟩,
      ⟨leadsTo_of_marks hmarks _, hends.beforeMark?_eq_none⟩, hstart⟩
  · rw [List.reverse_append, List.append_assoc]
    rcases hclose with ⟨hnil, -⟩ | hclose
    · exact absurd hnil hne
    · exact hclose _

/-! ## Declarations -/

/-- An element list can be read back from its closing bracket. -/
theorem beforeElements?_of_elementList {ls contents rest : List Lexeme}
    (h : elementList? ls = some (contents, rest)) :
    startsWithIdent ls = false ∧ ∃ list, ls = list ++ rest ∧ list.length = contents.length + 2 ∧
      ∀ before, startsWithIdent (list.reverse ++ before) = false ∧
        beforeElements? (list.reverse ++ before) = some before := by
  unfold elementList? at h
  split at h
  · rename_i hopen
    obtain ⟨list, hls, hlength, hback⟩ := BracketPair.group?_reverse (by decide) h
    refine ⟨startsWithIdent_eq_false hopen, list, hls, hlength, fun before => ?_⟩
    obtain ⟨hclose, hgroup⟩ := hback before
    refine ⟨startsWithIdent_eq_false hclose, ?_⟩
    rw [beforeElements?, if_pos (by exact hclose), hgroup]
    rfl
  · have hopen := startsWithPunct_of_group h
    obtain ⟨list, hls, hlength, hback⟩ := BracketPair.group?_reverse (by decide) h
    refine ⟨startsWithIdent_eq_false hopen, list, hls, hlength, fun before => ?_⟩
    obtain ⟨hclose, hgroup⟩ := hback before
    have hsquare : ¬startsWithPunct "]" (list.reverse ++ before) = true := by
      rw [startsWithPunct_eq_false (by decide) hclose]
      decide
    refine ⟨startsWithIdent_eq_false hclose, ?_⟩
    rw [beforeElements?, if_neg hsquare, hgroup]
    rfl

/-- An initializer list among declarators leads back to the place of the first of them. -/
theorem leadsTo_of_mem_declaratorSites {element : ElementType} {allocated : ArrayLevel}
    {inner : List ArrayLevel} {position : Nat} {ls : List Lexeme} {s : Site}
    (h : s ∈ declaratorSites element allocated inner position ls) (before : List Lexeme) :
    ∃ taken value, ls = taken ++ value ∧ s.first = position + taken.length ∧ 2 ≤ taken.length ∧
      startsWithIdent value = false ∧
      LeadsTo previousDeclarator? ((taken.reverse ++ before).drop 2) before := by
  fun_induction declaratorSites element allocated inner position ls generalizing before with
  | case1 => cases h
  | case2 => cases h
  | case3 position name mark value hname hmark contents rest hlist opening last ih =>
    obtain ⟨hvalue, list, rfl, hlength, hback⟩ := beforeElements?_of_elementList hlist
    rcases List.mem_cons.1 h with rfl | h
    · exact ⟨[name, mark], _, rfl, rfl, Nat.le_refl _, hvalue, .refl⟩
    · split at h
      · rename_i comma rest _ _
        split at h
        · rename_i hcomma
          obtain ⟨hident, helements⟩ := hback (mark :: name :: before)
          obtain ⟨taken, value, rfl, hfirst, htaken, hvalue, hleads⟩ :=
            ih comma rest hlist h (comma :: (list.reverse ++ (mark :: name :: before)))
          refine ⟨name :: mark :: (list ++ comma :: taken), value, by simp, ?_, by simp, hvalue, ?_⟩
          · simp only [hfirst, last, opening, List.length_cons, List.length_append, hlength]
            omega
          · have hplace : (name :: mark :: (list ++ comma :: taken)).reverse ++ before =
                taken.reverse ++ comma :: (list.reverse ++ (mark :: name :: before)) := by simp
            rw [hplace]
            refine hleads.tail ?_
            rw [previousDeclarator?, if_pos (by exact hcomma), List.tail_cons, hident, helements]
            rfl
        · cases h
      · cases h
  | case4 position name mark value hname hmark hcomma ih =>
    obtain ⟨taken, value, rfl, hfirst, htaken, hvalue, hleads⟩ := ih h (mark :: name :: before)
    refine ⟨name :: mark :: taken, value, rfl, ?_, by simp, hvalue, ?_⟩
    · simp only [hfirst, List.length_cons]
      omega
    · have hplace : (name :: mark :: taken).reverse ++ before =
          taken.reverse ++ mark :: name :: before := by simp
      rw [hplace]
      refine hleads.tail ?_
      have hident : startsWithIdent (name :: before) = true := by
        change name.isIdent = true
        simpa using hname
      rw [previousDeclarator?, if_pos (by exact hcomma), List.tail_cons, if_pos hident]
      rfl
  | case5 => cases h
  | case6 => cases h

/-- The initializer lists of a declaration stand behind each other. -/
theorem pairwise_declaratorSites (element : ElementType) (allocated : ArrayLevel)
    (inner : List ArrayLevel) (position : Nat) (ls : List Lexeme) :
    (declaratorSites element allocated inner position ls).Pairwise (·.first < ·.first) := by
  fun_induction declaratorSites element allocated inner position ls with
  | case3 position name mark value hname hmark contents rest hlist opening last ih =>
    refine List.pairwise_cons.2 ⟨fun s hs => ?_, ?_⟩
    · split at hs
      · split at hs
        · obtain ⟨taken, _, -, hfirst, -⟩ := leadsTo_of_mem_declaratorSites hs []
          simp only [hfirst, last, opening]
          omega
        · cases hs
      · cases hs
    · split
      · split
        · exact ih _ _ ‹_›
        · exact .nil
      · exact .nil
  | case4 position name mark value hname hmark hcomma ih => exact ih
  | case1 => exact .nil
  | case2 => exact .nil
  | case5 => exact .nil
  | case6 => exact .nil

theorem startsName_of_startsWithText {before : List Lexeme}
    (h : ¬startsWithText [".", "new", ":"] before = true) : StartsName before := by
  have hnot (p : String) (hp : p ∈ [".", "new", ":"]) : startsWithPunct p before = false := by
    rw [Bool.eq_false_iff]
    intro hpunct
    cases before with
    | nil => cases hpunct
    | cons l before =>
      rw [startsWithPunct_cons, Lexeme.isPunct, Bool.and_eq_true, decide_eq_true_eq,
        decide_eq_true_eq] at hpunct
      exact h (List.contains_iff_mem.2 (hpunct.2 ▸ hp))
  exact ⟨hnot "." (by decide), by rw [hnot ":" (by decide), Bool.false_and]⟩

theorem exists_mark_of_skipNullableMark (ls : List Lexeme) :
    ∃ mark, ls = mark ++ skipNullableMark ls ∧
      (mark = [] ∨ ∃ l, mark = [l] ∧ l.isPunct "?" = true) := by
  unfold skipNullableMark
  split
  · rename_i hmark
    cases ls with
    | nil => cases hmark
    | cons l ls => exact ⟨[l], rfl, .inr ⟨l, rfl, (Bool.and_eq_true_iff.1 hmark).1⟩⟩
  · exact ⟨[], rfl, .inl rfl⟩

/-- The initializer list of a declarator tells where the declaration starts. -/
theorem isFoundFrom_of_mem_declaratorSites {before ls rest : List Lexeme} {type : TypeRef}
    {element : ElementType} {allocated : ArrayLevel} {inner : List ArrayLevel} {s : Site}
    (htype : typeRef? ls = some (type, rest)) (hlevels : type.levels ≠ [])
    (hbefore : StartsName before)
    (h : s ∈ declaratorSites element allocated inner (ls.length - (skipNullableMark rest).length)
      (skipNullableMark rest)) :
    s.IsFoundFrom DeclarationStarts before ls ∧ 0 < s.first := by
  obtain ⟨taken, rfl, hstart, hclose⟩ := typeStarts_of_typeRef htype hbefore
  replace hclose := hclose hlevels
  obtain ⟨mark, hrest, hmark⟩ := exists_mark_of_skipNullableMark rest
  obtain ⟨declarators, value, hvalue, hfirst, htwo, hident, hleads⟩ :=
    leadsTo_of_mem_declaratorSites h (mark.reverse ++ (taken.reverse ++ before))
  -- no comma stands in front of the first declarator
  have hcomma : startsWithPunct "," (mark.reverse ++ (taken.reverse ++ before)) = false := by
    rcases hmark with rfl | ⟨l, rfl, hl⟩
    · exact startsWithPunct_eq_false (by decide) hclose
    · exact BracketPair.isPunct_eq_false (by decide) hl
  refine ⟨⟨taken ++ mark ++ declarators, value, ?_, ?_, .inr ⟨hident, ?_⟩⟩, by omega⟩
  · rw [List.append_assoc, List.append_assoc, ← hvalue, ← hrest]
  · have hlength := congrArg List.length hrest
    simp only [List.length_append] at hlength hfirst ⊢
    omega
  · refine ⟨mark.reverse ++ (taken.reverse ++ before), ⟨?_, ?_⟩, ?_⟩
    · simpa using hleads
    · rw [previousDeclarator?, hcomma]
      rfl
    · rcases hmark with rfl | ⟨l, rfl, hl⟩
      · rw [List.reverse_nil, List.nil_append, startsWithPunct_eq_false (by decide) hclose]
        exact hstart
      · rw [if_pos (by exact hl)]
        exact hstart

theorem isFoundFrom_of_mem_declarationSites {before ls : List Lexeme} {s : Site}
    (h : s ∈ declarationSites before ls) :
    s.IsFoundFrom DeclarationStarts before ls ∧ 0 < s.first := by
  unfold declarationSites at h
  split at h
  · cases h
  rename_i hbefore
  split at h
  · cases h
  rename_i type rest htype
  split at h
  · cases h
  rename_i allocated inner hlevels
  split at h
  · cases h
  exact isFoundFrom_of_mem_declaratorSites htype (by simp [hlevels])
    (startsName_of_startsWithText hbefore) h

theorem pairwise_declarationSites (before ls : List Lexeme) :
    (declarationSites before ls).Pairwise (·.first < ·.first) := by
  unfold declarationSites
  split
  · exact .nil
  · split
    · exact .nil
    · split
      · exact .nil
      · split
        · exact .nil
        · exact pairwise_declaratorSites ..

/-! ## Sites -/

/-- A creation expression starts with a word, at its place. -/
theorem first_of_creation {ls : List Lexeme} {s : Site} (h : creation? ls = some s) :
    s.first = 0 ∧ startsWithIdent ls = true := by
  cases isCreation_of_creation h with
  | inferred hnew | listed hnew | unlisted hnew => exact ⟨rfl, (Bool.and_eq_true_iff.1 hnew).1⟩

theorem isCompilerGenerated_of_paramArrayCall {arrays : List ParamArray} {before ls : List Lexeme}
    {s : Site} (h : paramArrayCall? arrays before ls = some s) :
    s.origin.isCompilerGenerated = true := by
  obtain ⟨array, -, -, -, -, -, -, -, -, rfl⟩ := exists_callSite_of_paramArrayCall h
  rfl

/-- The sites that a source writes down start apart. -/
theorem pairwise_startsApart_sites (ls : List Lexeme) : (sites ls).Pairwise Site.StartsApart := by
  refine pairwise_startsApart_collected
    (fun place start _ (hstarts : DeclarationStarts place start) => hstarts.unique)
    (fun before here s hs => ?_) (fun before here => ?_) _ ls
  · exact s.isFoundFrom_of_mem_recognised (fun _ => first_of_creation)
      (fun _ => isCompilerGenerated_of_paramArrayCall)
      (fun _ h => (isFoundFrom_of_mem_declarationSites h).1) hs
  · exact pairwise_startsApart_recognised (fun _ => first_of_creation)
      (fun _ => isCompilerGenerated_of_paramArrayCall)
      (fun _ h => (isFoundFrom_of_mem_declarationSites h).2) (pairwise_declarationSites before here)

end ZeroAlloc.CSharp

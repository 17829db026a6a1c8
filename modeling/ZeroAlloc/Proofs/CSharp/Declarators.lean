import ZeroAlloc.Proofs.CSharp.Grammar
set_option autoImplicit false

/-! # Declarators of C#

A declaration of arrays gives each of its names nothing, a list of elements or an expression of
another kind. Read from its type, its lists are found up to the first expression of another kind,
and none behind that one (`declaratorSites_declaratorRow`). -/

namespace ZeroAlloc

namespace CSharp

/-! ## Declarators -/

/-- Whether the row is one list of elements. -/
def isList (ls : List Lexeme) : Bool :=
  (elementList? ls).any (·.2.isEmpty)

/-- Whether the lexeme separates declarators or statements. -/
def isSeparator (l : Lexeme) : Bool :=
  l.isPunct "," || l.isPunct ";"

/-- What a declarator gives to its name. -/
inductive Initial where
  | nothing
  | list (b : BracketPair) (contents : List Lexeme) (mem : b ∈ listBrackets)
      (nests : brackets.Nests contents)
  /-- An expression of another kind, with commas inside brackets only. -/
  | expression (value : List Lexeme) (ne_nil : value ≠ [])
      (onlyInside : brackets.OnlyInside isSeparator value) (isOther : isList value = false)

/-- A name that is declared, with its initial value. -/
structure Declarator where
  name : Lexeme
  isName : name.isIdent = true
  initial : Initial

namespace Declarator

/-- Whether the initial value is an expression other than a list. -/
def isComputed (d : Declarator) : Bool :=
  match d.initial with
  | .expression .. => true
  | _ => false

/-- The lexemes of the initial value. -/
def value (d : Declarator) : List Lexeme :=
  match d.initial with
  | .nothing => []
  | .list b contents .. => .punct "=" :: b.enclose contents
  | .expression value .. => .punct "=" :: value

/-- The lexemes of the declarator. -/
def row (d : Declarator) : List Lexeme :=
  d.name :: d.value

end Declarator

/-- The lexemes of declarators, with commas between them. -/
def declaratorRow : List Declarator → List Lexeme
  | [] => []
  | [d] => d.row
  | d :: ds => d.row ++ .punct "," :: declaratorRow ds

/-- The declarators in front of the first one with an expression other than a list. -/
def beforeComputed (ds : List Declarator) : List Declarator :=
  ds.takeWhile (!·.isComputed)

section Sites

variable (element : ElementType) (allocated : ArrayLevel) (inner : List ArrayLevel)

/-- The site of the list that the declarator at a position gives to its name. -/
def Declarator.listSite? (position : Nat) (d : Declarator) : Option Site :=
  match d.initial with
  | .list _ contents .. =>
    some (.ofList element allocated inner (position + 2) contents contents)
  | _ => none

/-- The sites of the lists among declarators from a position on. -/
def listSites (position : Nat) : List Declarator → List Site
  | [] => []
  | d :: ds =>
    (d.listSite? element allocated inner position).toList ++
      listSites (position + d.row.length + 1) ds

/-- The site that is found at the declarator at a position. An expression that only starts with a
list is taken for this list. -/
def Declarator.foundSite? (position : Nat) (d : Declarator) : Option Site :=
  match d.initial with
  | .expression value .. =>
    (elementList? value).map fun (contents, _) =>
      .ofList element allocated inner (position + 2) contents contents
  | _ => d.listSite? element allocated inner position

/-- The sites that are found among declarators from a position on: none behind an expression other
than a list. -/
def foundSites (position : Nat) : List Declarator → List Site
  | [] => []
  | d :: ds =>
    (d.foundSite? element allocated inner position).toList ++
      if d.isComputed then [] else foundSites (position + d.row.length + 1) ds

end Sites

/-! ## Lists of elements -/

theorem elementList?_eq {b : BracketPair} (hb : b ∈ listBrackets) {ls : List Lexeme}
    (h : startsWithPunct b.opening ls = true) : elementList? ls = b.group? ls := by
  simp only [listBrackets, List.mem_cons, List.not_mem_nil, or_false] at hb
  rcases hb with rfl | rfl
  · exact if_pos h
  · exact if_neg (by rw [startsWithPunct_eq_false (by decide) h]; exact Bool.false_ne_true)

theorem mem_pairs_of_mem_listBrackets {b : BracketPair} (hb : b ∈ listBrackets) :
    b ∈ brackets.pairs := by
  revert b
  decide

theorem opening_ne_closing_of_mem_listBrackets {b : BracketPair} (hb : b ∈ listBrackets) :
    b.opening ≠ b.closing := by
  revert b
  decide

theorem elementList?_enclose {b : BracketPair} (hb : b ∈ listBrackets) {contents : List Lexeme}
    (h : brackets.Nests contents) (rest : List Lexeme) :
    elementList? (b.enclose contents ++ rest) = some (contents, rest) := by
  rw [elementList?_eq hb (by simp [BracketPair.enclose, startsWithPunct_cons])]
  exact BracketPair.group?_enclose (opening_ne_closing_of_mem_listBrackets hb)
    (h.nested (mem_pairs_of_mem_listBrackets hb)) rest

/-- In a nested row, every list that is opened ends. -/
theorem exists_elementList? {b : BracketPair} (hb : b ∈ listBrackets) {ls : List Lexeme}
    (hls : brackets.Nests ls) (h : startsWithPunct b.opening ls = true) :
    ∃ p, elementList? ls = some p := by
  rw [elementList?_eq hb h]
  have hnested := hls.nested (mem_pairs_of_mem_listBrackets hb)
  cases hnested with
  | nil => cases h
  | plain hopen =>
    rw [startsWithPunct_cons, hopen] at h
    cases h
  | @group opening close inside ls hopen hinside hclose _ =>
    refine ⟨(inside, ls), ?_⟩
    rw [BracketPair.group?, if_pos hopen,
      BracketPair.untilClose_eq_some_iff (opening_ne_closing_of_mem_listBrackets hb)]
    exact ⟨close, hclose, rfl, hinside⟩

/-- What a list takes of a nested row it takes whatever follows the row. -/
theorem elementList?_append {ls : List Lexeme} (hls : brackets.Nests ls) (hne : ls ≠ [])
    (more : List Lexeme) :
    elementList? (ls ++ more) = (elementList? ls).map fun p => (p.1, p.2 ++ more) := by
  have hstart (p : String) : startsWithPunct p (ls ++ more) = startsWithPunct p ls := by
    obtain ⟨l, ls, rfl⟩ := List.exists_cons_of_ne_nil hne
    rfl
  by_cases hopens : ∃ b ∈ listBrackets, startsWithPunct b.opening ls = true
  · obtain ⟨b, hb, hopen⟩ := hopens
    obtain ⟨p, hp⟩ := exists_elementList? hb hls hopen
    rw [hp, Option.map_some, elementList?_eq hb (by rwa [hstart])]
    rw [elementList?_eq hb hopen] at hp
    exact BracketPair.group?_append (opening_ne_closing_of_mem_listBrackets hb) hp more
  · have hnone {row : List Lexeme} (h : ∀ p, startsWithPunct p row = startsWithPunct p ls) :
        elementList? row = none := by
      have hclosed {b : BracketPair} (hb : b ∈ listBrackets) : b.group? row = none := by
        refine group_eq_none ?_
        rw [h, Bool.eq_false_iff]
        exact fun hopen => hopens ⟨b, hb, hopen⟩
      unfold elementList?
      split
      · exact hclosed (b := .squares) (by decide)
      · exact hclosed (b := .braces) (by decide)
    rw [hnone hstart, hnone fun _ => rfl]
    rfl

/-- Behind the list that an expression starts with, the expression goes on, and not with a comma. -/
theorem startsWithPunct_behind_list {value contents rest : List Lexeme}
    (h : brackets.OnlyInside isSeparator value) (hother : isList value = false)
    (hlist : elementList? value = some (contents, rest)) (more : List Lexeme) :
    startsWithPunct "," (rest ++ more) = false := by
  obtain ⟨b, hb, hgroup⟩ := exists_group_of_elementList hlist
  obtain ⟨group, hvalue, hisGroup, -⟩ :=
    Brackets.isGroup_of_group (mem_pairs_of_mem_listBrackets hb) ⟨[], h.nests⟩ hgroup
  rw [isList, hlist] at hother
  obtain ⟨l, rest, rfl⟩ := List.exists_cons_of_ne_nil (l := rest) (by simpa using hother)
  have hseparator := h.outside group l rest hvalue hisGroup.nests
  rw [isSeparator, Bool.or_eq_false_iff] at hseparator
  exact hseparator.1

/-! ## Reading declarators -/

variable {element : ElementType} {allocated : ArrayLevel} {inner : List ArrayLevel}

/-- One declarator, with what separates it from the next one or ends the declaration. -/
theorem declaratorSites_append (d : Declarator) (position : Nat) {separator : Lexeme}
    (hseparator : separator.isPunct "=" = false) (rest : List Lexeme) :
    declaratorSites element allocated inner position (d.row ++ separator :: rest) =
      (d.foundSite? element allocated inner position).toList ++
        if d.isComputed then []
        else if separator.isPunct "," then
          declaratorSites element allocated inner (position + d.row.length + 1) rest
        else [] := by
  obtain ⟨name, hname, initial⟩ := d
  cases initial with
  | nothing =>
    simp only [Declarator.row, Declarator.value, List.cons_append, List.nil_append]
    rw [declaratorSites_cons, hname, hseparator]
    rfl
  | list b contents hb hcontents =>
    simp only [Declarator.row, Declarator.value, List.cons_append]
    rw [declaratorSites_cons, hname, elementList?_enclose hb hcontents]
    have hbehind : position + 2 + contents.length + 1 + 2 =
        position + (name :: .punct "=" :: b.enclose contents).length + 1 := by
      simp only [List.length_cons, BracketPair.length_enclose]
      omega
    rw [← hbehind]
    rfl
  | expression value hne hinside hother =>
    simp only [Declarator.row, Declarator.value, List.cons_append]
    rw [declaratorSites_cons, hname, elementList?_append hinside.nests hne]
    cases hlist : elementList? value with
    | none => simp [Declarator.foundSite?, Declarator.isComputed, hlist]
    | some p =>
      obtain ⟨contents, after⟩ := p
      have hcomma := startsWithPunct_behind_list hinside hother hlist (separator :: rest)
      simp [Declarator.foundSite?, Declarator.isComputed, hlist, hcomma, Site.ofList]

/-- Among declarators, the lists up to the first expression of another kind are found. -/
theorem declaratorSites_declaratorRow (ds : List Declarator) (position : Nat)
    (behind : List Lexeme) :
    declaratorSites element allocated inner position
        (declaratorRow ds ++ .punct ";" :: behind) =
      foundSites element allocated inner position ds := by
  induction ds generalizing position with
  | nil => cases behind <;> simp [declaratorRow, foundSites, declaratorSites]
  | cons d ds ih =>
    cases ds with
    | nil =>
      rw [declaratorRow, declaratorSites_append _ _ (by decide)]
      rfl
    | cons next ds =>
      rw [declaratorRow, List.append_assoc, List.cons_append,
        declaratorSites_append _ _ (by decide), ih]
      · rfl
      · exact List.cons_ne_nil _ _

/-- The lists in front of the first expression of another kind are found, before anything else. -/
theorem listSites_beforeComputed_isPrefix (ds : List Declarator) (position : Nat) :
    listSites element allocated inner position (beforeComputed ds) <+:
      foundSites element allocated inner position ds := by
  induction ds generalizing position with
  | nil => exact List.prefix_refl _
  | cons d ds ih =>
    rw [beforeComputed, List.takeWhile_cons]
    cases hcomputed : d.isComputed with
    | true => exact List.nil_prefix
    | false =>
      have hfound : d.foundSite? element allocated inner position =
          d.listSite? element allocated inner position := by
        obtain ⟨name, hname, initial⟩ := d
        cases initial with
        | nothing | list => rfl
        | expression => cases hcomputed
      rw [foundSites, hcomputed, hfound]
      exact (List.prefix_append_right_inj _).2 (ih _)

theorem map_shift_listSites (ds : List Declarator) (position n : Nat) :
    (listSites element allocated inner position ds).map (Site.shift n) =
      listSites element allocated inner (position + n) ds := by
  induction ds generalizing position with
  | nil => rfl
  | cons d ds ih =>
    have hsite : (d.listSite? element allocated inner position).map (Site.shift n) =
        d.listSite? element allocated inner (position + n) := by
      obtain ⟨name, hname, initial⟩ := d
      cases initial with
      | nothing | expression => rfl
      | list b contents =>
        simp [Declarator.listSite?, Site.ofList, Site.shift, Nat.add_right_comm _ _ n]
    rw [listSites, List.map_append, ih, ← Option.toList_map, hsite, listSites,
      Nat.add_right_comm _ _ n, Nat.add_right_comm _ _ n]

theorem origin_of_mem_listSites {ds : List Declarator} {position : Nat} {s : Site}
    (h : s ∈ listSites element allocated inner position ds) :
    s.origin = .implicitInitializer := by
  induction ds generalizing position with
  | nil => cases h
  | cons d ds ih =>
    rcases List.mem_append.1 h with h | h
    · obtain ⟨name, hname, initial⟩ := d
      cases initial with
      | nothing | expression => cases h
      | list =>
        rw [List.mem_singleton.1 h]
        rfl
    · exact ih h

/-! ## Places of declarations -/

/-- A site that starts with no word is a list of a declaration. -/
theorem exists_declared_of_mem_sites {ls : List Lexeme} {s : Site} (hs : s ∈ sites ls)
    (hword : startsWithIdent (ls.drop s.first) = false) :
    ∃ passed here, ls = passed ++ here ∧ ∃ found ∈ declarationSites passed.reverse here,
      s = (found.shift passed.length).markAttribute (attributeSections [] 0 none ls) := by
  obtain ⟨passed, here, rfl, found, hfound, rfl⟩ := exists_found_of_mem_collected hs
  refine ⟨passed, here, rfl, found, ?_, rfl⟩
  have hhere (hzero : found.first = 0) : startsWithIdent here = false := by
    simpa [hzero] using hword
  simp only [List.mem_append, Option.mem_toList] at hfound
  rcases hfound with (hfound | hfound) | hfound
  · obtain ⟨hzero, hident⟩ := first_of_creation hfound
    rw [hhere hzero] at hident
    cases hident
  · exact hfound
  · obtain ⟨array, -, name, args, inside, rest, rfl, hname, -, rfl⟩ :=
      exists_callSite_of_paramArrayCall hfound
    have hident : startsWithIdent (name :: args) = true := hname
    rw [hhere rfl] at hident
    cases hident

/-! ## Declarations -/

deriving instance DecidableEq for TypeRef

/-- A declaration of arrays: `T d, …, d;`. -/
structure ArrayDeclaration where
  /-- The lexemes of the type. -/
  type : List Lexeme
  ref : TypeRef
  isType : typeRef? type = some (ref, [])
  allocated : ArrayLevel
  inner : List ArrayLevel
  levels : ref.levels = allocated :: inner
  unsized : ∀ level ∈ allocated :: inner, level.hasSizes = false
  /-- Whether a mark behind the type makes the array nullable. -/
  isNullable : Bool
  declarators : List Declarator
  declarators_ne_nil : declarators ≠ []

namespace ArrayDeclaration

variable (d : ArrayDeclaration)

/-- The lexemes in front of the first declarator. -/
def head : List Lexeme :=
  d.type ++ if d.isNullable then [.punct "?"] else []

/-- The lexemes of the declaration, through its semicolon. -/
def row : List Lexeme :=
  d.head ++ (declaratorRow d.declarators ++ [.punct ";"])

/-- The sites of the lists among the given declarators, if the declaration starts at a position. -/
def listSites (position : Nat) (ds : List Declarator) : List Site :=
  CSharp.listSites d.ref.element d.allocated d.inner (position + d.head.length) ds

theorem levels_ne_nil : d.ref.levels ≠ [] := by
  rw [d.levels]
  exact List.cons_ne_nil _ _

/-- Arrays of every type of the grammar, with any ranks, can be declared. -/
theorem exists_of_derives {element : List Lexeme} (h : Phrase.element.Derives element) {rank : Nat}
    {ranks : List Nat} (hranks : ∀ r ∈ rank :: ranks, 0 < r) (isNullable : Bool)
    {ds : List Declarator} (hds : ds ≠ []) :
    ∃ d : ArrayDeclaration,
      d.type = element ++ (rank :: ranks).flatMap BracketPair.squares.unsized ∧
      d.ref.parts = element ∧
      d.allocated :: d.inner = (rank :: ranks).map (fun r => ⟨List.replicate r none⟩) ∧
      d.isNullable = isNullable ∧ d.declarators = ds := by
  have hunsized : ∀ level ∈ (rank :: ranks).map fun r => (⟨List.replicate r none⟩ : ArrayLevel),
      level.hasSizes = false := by
    intro level hlevel
    obtain ⟨r, -, rfl⟩ := List.mem_map.1 hlevel
    simp [ArrayLevel.hasSizes]
  obtain ⟨isPointer, htype⟩ := typeRef?_of_derives h hranks
  exact ⟨⟨_, _, htype, _, _, rfl, hunsized, isNullable, ds, hds⟩, rfl, rfl, rfl, rfl, rfl⟩

/-- The declaration is read up to its declarators, whatever follows it. -/
theorem exists_typeRef?_row (behind : List Lexeme) :
    ∃ rest, typeRef? (d.row ++ behind) = some (d.ref, rest) ∧
      skipNullableMark rest = declaratorRow d.declarators ++ .punct ";" :: behind ∧
      (d.row ++ behind).length - (skipNullableMark rest).length = d.head.length := by
  have hname : startsWithIdent (declaratorRow d.declarators ++ .punct ";" :: behind) = true := by
    obtain ⟨first, more, hds⟩ := List.exists_cons_of_ne_nil d.declarators_ne_nil
    rw [hds]
    cases more <;> exact first.isName
  have hplain (p : String) := startsWithPunct_eq_false_of_startsWithIdent hname p
  obtain ⟨rest, htype, hrest⟩ : ∃ rest, typeRef? (d.row ++ behind) = some (d.ref, rest) ∧
      skipNullableMark rest = declaratorRow d.declarators ++ .punct ";" :: behind := by
    rw [row, head]
    simp only [List.append_assoc, List.singleton_append]
    cases d.isNullable with
    | true =>
      refine ⟨_, typeRef?_append_rest d.isType d.levels_ne_nil rfl, ?_⟩
      rw [skipNullableMark, if_pos (by exact hname)]
      rfl
    | false =>
      refine ⟨_, typeRef?_append_rest d.isType d.levels_ne_nil (hplain "["), ?_⟩
      rw [skipNullableMark, if_neg (by simp [hplain])]
      rfl
  refine ⟨rest, htype, hrest, ?_⟩
  simp only [hrest, row, List.length_append, List.length_cons, List.length_nil]
  omega

/-- What is found at the start of the declaration: its lists up to the first expression of another
kind. -/
theorem declarationSites_row {before : List Lexeme}
    (hbefore : startsWithText [".", "new", ":"] before = false) (behind : List Lexeme) :
    declarationSites before (d.row ++ behind) =
      foundSites d.ref.element d.allocated d.inner d.head.length d.declarators := by
  obtain ⟨rest, htype, hrest, hwidth⟩ := d.exists_typeRef?_row behind
  have hsizes : (d.allocated :: d.inner).any ArrayLevel.hasSizes = false := by
    simpa using d.unsized
  rw [declarationSites, hbefore, htype]
  simp only [hwidth, hsizes, d.levels, Bool.false_eq_true, if_false]
  rw [hrest, declaratorSites_declaratorRow]

/-! ## Sites of a file -/

variable {d} {ls before behind : List Lexeme}

/-- The lists in front of the first expression of another kind tell where the declaration starts. -/
theorem isFoundFrom_of_mem_listSites (behind : List Lexeme)
    (hbefore : StartsName before.reverse) {s : Site}
    (h : s ∈ CSharp.listSites d.ref.element d.allocated d.inner d.head.length
      (beforeComputed d.declarators)) :
    s.IsFoundFrom DeclarationStarts before.reverse (d.row ++ behind) ∧ 0 < s.first := by
  obtain ⟨rest, htype, hrest, hwidth⟩ := d.exists_typeRef?_row behind
  have hfound := (listSites_beforeComputed_isPrefix _ _).subset h
  rw [← declaratorSites_declaratorRow _ _ behind, ← hrest, ← hwidth] at hfound
  exact isFoundFrom_of_mem_declaratorSites htype d.levels_ne_nil hbefore hfound

/-- A site that starts at one of the lists is found from a declaration at the same place. -/
theorem exists_of_first_eq (hls : ls = before ++ (d.row ++ behind))
    (hbefore : StartsName before.reverse) {s other : Site} (hs : s ∈ sites ls)
    (h : other ∈ d.listSites before.length (beforeComputed d.declarators))
    (hfirst : other.first = s.first) :
    ∃ found ∈ declarationSites before.reverse (d.row ++ behind),
      s = (found.shift before.length).markAttribute (attributeSections [] 0 none ls) := by
  rw [listSites, Nat.add_comm, ← map_shift_listSites] at h
  obtain ⟨list, hlist, rfl⟩ := List.mem_map.1 h
  obtain ⟨hstarts, hpositive⟩ := isFoundFrom_of_mem_listSites behind hbefore hlist
  -- a list starts with no word
  have hword : startsWithIdent (ls.drop s.first) = false := by
    obtain ⟨taken, value, hrow, hlength, ⟨rfl, -⟩ | ⟨hvalue, -⟩⟩ := hstarts
    · rw [hlength] at hpositive
      cases hpositive
    · rwa [hls, hrow, ← hfirst, Site.first_shift, hlength, Nat.add_comm,
        List.drop_length_add_append, List.drop_left]
  obtain ⟨passed, here, hrow, found, hfound, rfl⟩ := exists_declared_of_mem_sites hs hword
  obtain ⟨hstarts', hpositive'⟩ := isFoundFrom_of_mem_declarationSites hfound
  have hplace : before.reverse = passed.reverse := by
    refine hstarts.before_eq (fun _ _ _ hstart hstart' => hstart.unique hstart') hstarts' ?_ ?_
      hpositive hpositive'
    · rw [List.reverse_reverse, List.reverse_reverse, ← hls, hrow]
    · simpa using hfirst
  obtain rfl := List.reverse_injective hplace
  obtain rfl := List.append_cancel_left (hls.symm.trans hrow)
  exact ⟨found, hfound, rfl⟩

/-- The sites of a file that start at the lists of a declaration, up to the first expression of
another kind: one for each of these lists, in order. -/
theorem filter_sites (hls : ls = before ++ (d.row ++ behind))
    (hbefore : startsWithText [".", "new", ":"] before.reverse = false) :
    (sites ls).filter (fun s =>
        (d.listSites before.length (beforeComputed d.declarators)).any (·.first == s.first)) =
      (d.listSites before.length (beforeComputed d.declarators)).map
        (Site.markAttribute (attributeSections [] 0 none ls)) := by
  have hstarts : StartsName before.reverse :=
    startsName_of_startsWithText (Bool.eq_false_iff.1 hbefore)
  have hpairs := pairwise_declarationSites before.reverse (d.row ++ behind)
  have hlists : CSharp.listSites d.ref.element d.allocated d.inner d.head.length
      (beforeComputed d.declarators) <+: declarationSites before.reverse (d.row ++ behind) := by
    rw [d.declarationSites_row hbefore]
    exact listSites_beforeComputed_isPrefix _ _
  have hlisted : d.listSites before.length (beforeComputed d.declarators) =
      (CSharp.listSites d.ref.element d.allocated d.inner d.head.length
        (beforeComputed d.declarators)).map (Site.shift before.length) := by
    rw [map_shift_listSites, Nat.add_comm]
    rfl
  refine filter_eq_of_mem_iff (Site.pairwise_mergeSort _) (pairwise_startsApart_sites ls) ?_
    (fun s hs => ?_) fun s => ⟨?_, fun hs => ?_⟩
  · rw [hlisted, List.map_map, List.pairwise_map]
    simpa using hpairs.sublist hlists.sublist
  · obtain ⟨list, hlist, rfl⟩ := List.mem_map.1 hs
    rw [Site.origin_markAttribute, origin_of_mem_listSites hlist]
    rfl
  · rintro ⟨hs, hfirst⟩
    obtain ⟨list, hlist, hfirst⟩ := List.any_eq_true.1 hfirst
    rw [beq_iff_eq] at hfirst
    obtain ⟨found, hfound, rfl⟩ := exists_of_first_eq hls hstarts hs hlist hfirst
    refine List.mem_map_of_mem ?_
    rw [hlisted] at hlist ⊢
    obtain ⟨other, hother, rfl⟩ := List.mem_map.1 hlist
    -- at one place, two lists that start at one lexeme are one
    have hnodup : ((declarationSites before.reverse (d.row ++ behind)).map Site.first).Nodup :=
      List.pairwise_map.2 (hpairs.imp Nat.ne_of_lt)
    obtain rfl := List.inj_on_of_nodup_map hnodup (hlists.subset hother) hfound
      (by simpa using hfirst)
    exact List.mem_map_of_mem hother
  · obtain ⟨list, hlist, rfl⟩ := List.mem_map.1 hs
    refine ⟨?_, List.any_eq_true.2 ⟨list, hlist, by simp⟩⟩
    rw [hlisted] at hlist
    obtain ⟨found, hfound, rfl⟩ := List.mem_map.1 hlist
    subst hls
    refine mem_collected _ (by simp [row]) ?_
    exact List.mem_append_left _ (List.mem_append_right _ (hlists.subset hfound))

/-- Behind a single colon, no site starts at the lists of a declaration. -/
theorem filter_sites_eq_nil (hls : ls = before ++ (d.row ++ behind))
    (hcolon : startsWithPunct ":" before.reverse = true)
    (hsingle : startsWithPunct ":" before.reverse.tail = false) :
    (sites ls).filter (fun s =>
        (d.listSites before.length (beforeComputed d.declarators)).any (·.first == s.first)) =
      [] := by
  have hbefore : StartsName before.reverse :=
    ⟨startsWithPunct_eq_false (by decide) hcolon, by rw [hsingle, Bool.and_false]⟩
  rw [List.filter_eq_nil_iff]
  intro s hs hlist
  obtain ⟨list, hmem, hfirst⟩ := List.any_eq_true.1 hlist
  obtain ⟨found, hfound, -⟩ := exists_of_first_eq hls hbefore hs hmem (by simpa using hfirst)
  -- no declaration is read behind a colon
  rw [declarationSites, startsWithText_eq_contains hcolon, if_pos (by decide)] at hfound
  cases hfound

end ArrayDeclaration

end CSharp

end ZeroAlloc

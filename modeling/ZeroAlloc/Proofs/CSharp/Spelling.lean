import ZeroAlloc.Proofs.CSharp.Extent
import ZeroAlloc.Proofs.Site.Spelling
set_option autoImplicit false

/-! # Types of C# that are written again

What a reader of types takes it takes again from the same lexemes, whatever follows them, as long as
nothing there continues the type (`typeRef?_append`). The element type of a site is read from such a
row (`isElement_of_mem_sites`). -/

namespace ZeroAlloc.CSharp

/-! ## Names -/

theorem typeArgumentsFrom?_append {depth : Nat} {ls taken rest : List Lexeme}
    (h : typeArgumentsFrom? depth ls = some (taken, rest)) (more : List Lexeme) :
    typeArgumentsFrom? depth (taken ++ more) = some (taken, more) := by
  induction ls generalizing depth taken with
  | nil => cases h
  | cons l ls ih =>
    have further {d : Nat}
        (h : (typeArgumentsFrom? d ls).map (fun p => (l :: p.1, p.2)) = some (taken, rest)) :
        ∃ t, taken = l :: t ∧ typeArgumentsFrom? d (t ++ more) = some (t, more) := by
      obtain ⟨⟨t, r⟩, ht, he⟩ := Option.map_eq_some_iff.1 h
      cases he
      exact ⟨t, rfl, ih ht⟩
    unfold typeArgumentsFrom? at h
    split at h
    · rename_i hclose
      cases depth with
      | zero =>
        cases h
        simp [typeArgumentsFrom?, hclose]
      | succ depth =>
        obtain ⟨t, rfl, ht⟩ := further h
        simp [typeArgumentsFrom?, hclose, ht]
    · rename_i hclose
      split at h
      · rename_i hopen
        obtain ⟨t, rfl, ht⟩ := further h
        simp [typeArgumentsFrom?, hclose, hopen, ht]
      · rename_i hopen
        split at h
        · rename_i hplain
          obtain ⟨t, rfl, ht⟩ := further h
          rw [List.cons_append, typeArgumentsFrom?.eq_def]
          dsimp only
          rw [if_neg hclose, if_neg hopen, if_pos hplain, ht]
          rfl
        · cases h

theorem typeArguments?_append {ls taken rest more : List Lexeme}
    (h : typeArguments? ls = some (taken, rest)) (hmore : startsWithPunct "<" more = false) :
    typeArguments? (taken ++ more) = some (taken, more) := by
  have hnone : typeArguments? more = some ([], more) := by
    cases more with
    | nil => rfl
    | cons l more =>
      rw [typeArguments?, if_neg]
      exact Bool.eq_false_iff.1 hmore
  cases ls with
  | nil =>
    cases h
    exact hnone
  | cons l ls =>
    rw [typeArguments?] at h
    split at h
    · rename_i hopen
      obtain ⟨⟨t, r⟩, ht, he⟩ := Option.map_eq_some_iff.1 h
      cases he
      rw [List.cons_append, typeArguments?, if_pos hopen, typeArgumentsFrom?_append ht]
      rfl
    · cases h
      exact hnone

theorem qualifier?_append {ls mark next more : List Lexeme} (h : qualifier? ls = some (mark, next))
    (hmore : more.head? = next.head?) :
    qualifier? (mark ++ more) = some (mark, more) ∧
      startsWithPunct "<" (mark ++ more) = false := by
  unfold qualifier? at h
  split at h
  · rename_i dot name ls
    split at h
    · rename_i hdot
      cases h
      obtain ⟨more, rfl⟩ : ∃ rest, more = name :: rest := by
        cases more with
        | nil => cases hmore
        | cons l more =>
          obtain rfl : l = name := Option.some.inj hmore
          exact ⟨more, rfl⟩
      exact ⟨if_pos hdot, BracketPair.isPunct_eq_false (by decide) (Bool.and_eq_true_iff.1 hdot).1⟩
    · rename_i hdot
      split at h
      · rename_i name' ls'
        split at h
        · rename_i hcolons
          cases h
          obtain ⟨more, rfl⟩ : ∃ rest, more = name' :: rest := by
            cases more with
            | nil => cases hmore
            | cons l more =>
              obtain rfl : l = name' := Option.some.inj hmore
              exact ⟨more, rfl⟩
          refine ⟨by simp [qualifier?, hdot, hcolons], ?_⟩
          simp only [Bool.and_eq_true] at hcolons
          exact BracketPair.isPunct_eq_false (by decide) hcolons.1.1
        · cases h
      · cases h
  · cases h

/-- No name goes on into the row. -/
def StopsName (ls : List Lexeme) : Prop :=
  ∀ p ∈ ["<", ".", ":"], startsWithPunct p ls = false

theorem qualifier?_eq_none {ls : List Lexeme} (h : StopsName ls) : qualifier? ls = none := by
  unfold qualifier?
  split
  · rename_i dot name ls
    have hdot : dot.isPunct "." = false := h "." (by decide)
    have hcolon : dot.isPunct ":" = false := h ":" (by decide)
    rw [hdot, if_neg (by simp)]
    split
    · rw [hcolon, if_neg (by simp)]
    · rfl
  · rfl

theorem isTypeWord_congr {l : Lexeme} {ls more : List Lexeme} (h : ls.head? = more.head?) :
    isTypeWord l ls = isTypeWord l more := by
  rw [isTypeWord, isTypeWord, h]

/-- A word that no colon follows is one whatever follows it. -/
theorem isTypeWord_of_not_colon {l : Lexeme} {ls : List Lexeme} (h : isTypeWord l ls = true)
    (hcolon : startsWithPunct ":" ls = false) (more : List Lexeme) : isTypeWord l more = true := by
  rw [isTypeWord, startsWithPunct] at *
  rw [hcolon, Bool.and_false, Bool.or_false] at h
  rw [h, Bool.true_or]

/-- A name is read again in front of a row into which it does not go on. No colon follows it where
it was read, so its last word is not `global`. -/
theorem typeName?_append {ls name rest more : List Lexeme} (h : typeName? ls = some (name, rest))
    (hcolon : startsWithPunct ":" rest = false) (hmore : StopsName more) :
    typeName? (name ++ more) = some (name, more) := by
  fun_induction typeName? ls generalizing name with
  | case1 => cases h
  | case2 => cases h
  | case3 l ls hword arguments after harguments hqualifier =>
    cases h
    have hls := eq_append_of_typeArguments harguments
    have hword' : isTypeWord l (arguments ++ more) = true := by
      cases arguments with
      | nil => exact isTypeWord_of_not_colon hword (hls ▸ hcolon) _
      | cons m arguments => exact (isTypeWord_congr (by rw [hls]; rfl)).trans hword
    rw [List.cons_append, typeName?_cons, if_pos hword',
      typeArguments?_append harguments (hmore "<" (by decide)), Option.bind_some,
      qualifier?_eq_none hmore]
  | case4 l ls hword arguments after harguments mark next hqualifier ih =>
    obtain ⟨⟨name, r⟩, hname, he⟩ := Option.map_eq_some_iff.1 h
    cases he
    obtain ⟨hnext, hne⟩ := eq_append_of_typeName hname
    have hhead : (name ++ more).head? = next.head? := by
      rw [hnext]
      cases name with
      | nil => exact absurd rfl hne
      | cons m name => rfl
    obtain ⟨hmark, hopen⟩ := qualifier?_append hqualifier hhead
    have hls := eq_append_of_typeArguments harguments
    rw [eq_append_of_qualifier hqualifier] at hls
    have hword' : isTypeWord l (arguments ++ (mark ++ (name ++ more))) = true := by
      have hmarkhead : (mark ++ (name ++ more)).head? = (mark ++ next).head? := by
        rw [List.head?_append, hhead, ← List.head?_append]
      refine (isTypeWord_congr ?_).trans hword
      rw [hls, List.head?_append, hmarkhead, ← List.head?_append]
    rw [List.append_assoc, List.append_assoc, List.cons_append, typeName?_cons, if_pos hword',
      typeArguments?_append harguments hopen, Option.bind_some, hmark]
    dsimp only
    rw [ih hname]
    rfl
  | case5 => cases h

/-! ## Types -/

/-- The name that the row starts with, with type arguments or as a tuple. -/
def elementName? (ls : List Lexeme) : Option (List Lexeme × List Lexeme) :=
  if startsWithPunct "(" ls then tuple? ls else typeName? ls

theorem typeRef?_eq (ls : List Lexeme) :
    typeRef? ls = (elementName? ls).bind fun p =>
      (arrayLevels .squares (fun _ => true) (p.2.dropWhile isTypeMark)).map fun q =>
        (⟨p.1 ++ p.2.takeWhile isTypeMark, (p.2.takeWhile isTypeMark).any (·.isPunct "*"), q.1⟩,
          q.2) :=
  rfl

theorem startsWithPunct_of_arrayLevels {b : BracketPair} {isLevel : List Lexeme → Bool}
    {ls rest : List Lexeme} {levels : List ArrayLevel} (hne : levels ≠ [])
    (h : arrayLevels b isLevel ls = some (levels, rest)) :
    startsWithPunct b.opening ls = true := by
  rw [arrayLevels_eq] at h
  split at h
  · rename_i hstart
    exact (Bool.and_eq_true_iff.1 hstart).1
  · cases h
    exact absurd rfl hne

/-- A name does not go on into marks and levels of an array. -/
theorem stopsName_of_dropWhile {ls : List Lexeme} (h : ls.dropWhile isTypeMark = [] ∨
    startsWithPunct "[" (ls.dropWhile isTypeMark) = true) : StopsName ls := by
  have hdistinct : ∀ p ∈ ["<", ".", ":"], ∀ q ∈ ["?", "*", "["], p ≠ q := by decide
  have hother {q : String} (hq : q ∈ ["?", "*", "["]) (h : startsWithPunct q ls = true) :
      StopsName ls := fun p hp => startsWithPunct_eq_false (hdistinct p hp q hq) h
  cases ls with
  | nil => exact fun _ _ => rfl
  | cons l ls =>
    rw [List.dropWhile_cons] at h
    split at h
    · rename_i hmark
      rcases Bool.or_eq_true_iff.1 hmark with hmark | hmark
      · exact hother (q := "?") (by decide) hmark
      · exact hother (q := "*") (by decide) hmark
    · rcases h with h | h
      · cases h
      · exact hother (q := "[") (by decide) h

theorem tuple?_append {ls name rest : List Lexeme} (h : tuple? ls = some (name, rest))
    (hplain : ∀ l ∈ name, l.isNewline = false) (more : List Lexeme) :
    tuple? (name ++ more) = some (name, more) := by
  have hls := (eq_append_of_tuple h).1
  obtain ⟨⟨inside, r⟩, hgroup, he⟩ := Option.map_eq_some_iff.1 h
  obtain rfl : r = rest := congrArg Prod.snd he
  rw [hls] at hgroup
  have hagain := BracketPair.group?_withoutNewlines (by decide) hgroup more
  obtain ⟨opening, close, _, _, rfl⟩ := BracketPair.eq_cons_of_group hgroup
  have hinside : withoutNewlines inside = inside :=
    withoutNewlines_eq_self fun l hl =>
      hplain l (List.mem_cons_of_mem _ (List.mem_append_left _ hl))
  rw [withoutNewlines_eq_self hplain, hinside] at hagain
  rw [tuple?, hagain, Option.map_some]
  dsimp only
  rw [BracketPair.take_of_group hagain]

/-- A name is read again in front of marks and levels of an array. -/
theorem elementName?_append {ls name rest more : List Lexeme}
    (h : elementName? ls = some (name, rest)) (hplain : ∀ l ∈ name, l.isNewline = false)
    (hrest : StopsName rest) (hmore : StopsName more) :
    elementName? (name ++ more) = some (name, more) := by
  have hstart (hname : ls = name ++ rest ∧ name ≠ []) :
      startsWithPunct "(" (name ++ more) = startsWithPunct "(" ls := by
    obtain ⟨rfl, hne⟩ := hname
    cases name with
    | nil => exact absurd rfl hne
    | cons l name => rfl
  unfold elementName? at h
  split at h
  · rename_i hopen
    rw [elementName?, hstart (eq_append_of_tuple h), if_pos hopen]
    exact tuple?_append h hplain more
  · rename_i hopen
    rw [elementName?, hstart (eq_append_of_typeName h), if_neg hopen]
    exact typeName?_append h (hrest ":" (by decide)) hmore

/-- Marks end where a list of dimensions starts. -/
theorem marks_append {marks lists : List Lexeme} (hmarks : ∀ l ∈ marks, isTypeMark l = true)
    (hstart : lists = [] ∨ startsWithPunct "[" lists = true) :
    (marks ++ lists).takeWhile isTypeMark = marks ∧
      (marks ++ lists).dropWhile isTypeMark = lists := by
  rw [List.takeWhile_append_of_pos hmarks, List.dropWhile_append_of_pos hmarks]
  cases lists with
  | nil => exact ⟨List.append_nil marks, rfl⟩
  | cons l lists =>
    have hopen : l.isPunct "[" = true := hstart.resolve_left (List.cons_ne_nil _ _)
    have hmark : ¬isTypeMark l = true := by
      rw [isTypeMark, BracketPair.isPunct_eq_false (by decide) hopen,
        BracketPair.isPunct_eq_false (by decide) hopen]
      exact Bool.false_ne_true
    rw [List.takeWhile_cons_of_neg hmark, List.dropWhile_cons_of_neg hmark, List.append_nil]
    exact ⟨rfl, rfl⟩

/-- The type of an array is read again in front of other levels. -/
theorem typeRef?_append {ls rest lists : List Lexeme} {type : TypeRef} {levels : List ArrayLevel}
    (h : typeRef? ls = some (type, rest)) (hne : type.levels ≠ [])
    (hplain : ∀ l ∈ type.parts, l.isNewline = false)
    (hlists : arrayLevels .squares (fun _ => true) lists = some (levels, []))
    (hstart : lists = [] ∨ startsWithPunct "[" lists = true) :
    typeRef? (type.parts ++ lists) = some (⟨type.parts, type.isPointer, levels⟩, []) := by
  rw [typeRef?_eq] at h
  obtain ⟨⟨name, after⟩, hname, h⟩ := Option.bind_eq_some_iff.1 h
  obtain ⟨⟨inner, r⟩, hinner, he⟩ := Option.map_eq_some_iff.1 h
  cases he
  obtain ⟨htake, hdrop⟩ := marks_append (List.all_eq_true.1 List.all_takeWhile) hstart
  have hafter : StopsName after :=
    stopsName_of_dropWhile (.inr (startsWithPunct_of_arrayLevels hne hinner))
  have hmore : StopsName (after.takeWhile isTypeMark ++ lists) :=
    stopsName_of_dropWhile (by rwa [hdrop])
  have hagain := elementName?_append hname
    (fun l hl => hplain l (List.mem_append_left _ hl)) hafter hmore
  rw [typeRef?_eq, List.append_assoc, hagain, Option.bind_some, hdrop, htake, hlists]
  rfl

theorem tuple?_append_rest {ls name rest : List Lexeme} (h : tuple? ls = some (name, rest))
    (more : List Lexeme) : tuple? (ls ++ more) = some (name, rest ++ more) := by
  obtain ⟨⟨inside, r⟩, hgroup, he⟩ := Option.map_eq_some_iff.1 h
  cases he
  obtain ⟨opening, close, -, -, hls⟩ := BracketPair.eq_append_of_group hgroup
  have hlength : inside.length + 2 ≤ ls.length := by
    simp only [hls, List.cons_append, List.length_cons, List.length_append]
    omega
  rw [tuple?, BracketPair.group?_append (by decide) hgroup, Option.map_some]
  dsimp only
  rw [List.take_append_of_le_length hlength]

theorem elementName?_append_rest {ls name rest more : List Lexeme}
    (h : elementName? ls = some (name, rest)) (hrest : StopsName rest)
    (hmore : StopsName (rest ++ more)) :
    elementName? (ls ++ more) = some (name, rest ++ more) := by
  have hstart (hne : ls ≠ []) : startsWithPunct "(" (ls ++ more) = startsWithPunct "(" ls := by
    obtain ⟨l, ls, rfl⟩ := List.exists_cons_of_ne_nil hne
    rfl
  unfold elementName? at h
  split at h
  · rename_i hopen
    obtain ⟨rfl, hne⟩ := eq_append_of_tuple h
    rw [elementName?, hstart (by simp [hne]), if_pos hopen]
    exact tuple?_append_rest h more
  · rename_i hopen
    obtain ⟨rfl, hne⟩ := eq_append_of_typeName h
    rw [elementName?, hstart (by simp [hne]), if_neg hopen, List.append_assoc]
    exact typeName?_append h (hrest ":" (by decide)) hmore

/-- The type of an array is read whatever follows it, if it is no further level. -/
theorem typeRef?_append_rest {ls rest more : List Lexeme} {type : TypeRef}
    (h : typeRef? ls = some (type, rest)) (hne : type.levels ≠ [])
    (hmore : startsWithPunct "[" (rest ++ more) = false) :
    typeRef? (ls ++ more) = some (type, rest ++ more) := by
  rw [typeRef?_eq] at h
  obtain ⟨⟨name, after⟩, hname, h⟩ := Option.bind_eq_some_iff.1 h
  obtain ⟨⟨levels, r⟩, hlevels, he⟩ := Option.map_eq_some_iff.1 h
  cases he
  dsimp only at hne
  have hmarks : ∀ l ∈ after.takeWhile isTypeMark, isTypeMark l = true :=
    List.all_eq_true.1 List.all_takeWhile
  have hopen : startsWithPunct "[" (after.dropWhile isTypeMark) = true :=
    startsWithPunct_of_arrayLevels hne hlevels
  have hopen' : startsWithPunct "[" (after.dropWhile isTypeMark ++ more) = true := by
    cases hlists : after.dropWhile isTypeMark with
    | nil =>
      rw [hlists] at hopen
      cases hopen
    | cons l lists =>
      rw [hlists] at hopen
      exact hopen
  obtain ⟨htake, hdrop⟩ := marks_append hmarks (.inr hopen')
  rw [← List.append_assoc, List.takeWhile_append_dropWhile] at htake hdrop
  have hagain : elementName? (ls ++ more) = some (name, after ++ more) :=
    elementName?_append_rest hname (stopsName_of_dropWhile (.inr hopen))
      (stopsName_of_dropWhile (.inr (hdrop ▸ hopen')))
  rw [typeRef?_eq, hagain, Option.bind_some]
  dsimp only
  rw [hdrop, arrayLevels_append (by decide) hlevels hmore, htake]
  rfl

/-! ## Element types of sites -/

/-- If the type is resolved, it is the element type of an array type that is read from lexemes of
the row. -/
def IsElement (row : List Lexeme) (t : ElementType) : Prop :=
  t.resolved = true → ∃ ls type rest, ls ⊆ row ∧ typeRef? ls = some (type, rest) ∧
    type.levels ≠ [] ∧ t = type.element

variable {row : List Lexeme}

theorem isElement_of_typeRef {ls rest : List Lexeme} {type : TypeRef} (hls : ls ⊆ row)
    (h : typeRef? ls = some (type, rest)) (hne : type.levels ≠ []) : IsElement row type.element :=
  fun _ => ⟨ls, type, rest, hls, h, hne, rfl⟩

theorem IsElement.readWith {t : ElementType} (h : IsElement row t) (ls : List Lexeme) :
    IsElement row (t.readWith ls) := by
  intro hresolved
  have heq := ElementType.readWith_of_resolved hresolved
  rw [heq] at hresolved ⊢
  exact h hresolved

theorem isElement_of_creation {ls : List Lexeme} {s : Site} (hls : ls ⊆ row)
    (h : creation? ls = some s) : IsElement row s.element := by
  have htail : ls.tail ⊆ row := fun l hl => hls (List.mem_of_mem_tail hl)
  cases isCreation_of_creation h with
  | inferred =>
    -- an inferred type is not resolved
    intro hresolved
    cases hresolved
  | listed _ htype hlevels | unlisted _ htype hlevels =>
    exact (isElement_of_typeRef htail htype (by simp [hlevels])).readWith _

theorem isElement_of_mem_declarationSites {before ls : List Lexeme} {s : Site} (hls : ls ⊆ row)
    (h : s ∈ declarationSites before ls) : IsElement row s.element := by
  obtain ⟨type, rest, allocated, inner, htype, hlevels, -, hlist⟩ :=
    exists_isListOn_of_mem_declarationSites h
  have helement := isElement_of_typeRef hls htype (by simp [hlevels])
  cases hlist
  exact helement.readWith _

theorem isElement_of_paramArray {before ls : List Lexeme} {p : ParamArray} (hls : ls ⊆ row)
    (h : paramArray? before ls = some p) : IsElement row p.element := by
  obtain ⟨type, rest, htype, hlevels, helement⟩ := exists_typeRef_of_paramArray h
  rw [helement]
  exact isElement_of_typeRef (fun l hl => hls (List.mem_of_mem_tail hl)) htype (by simp [hlevels])

theorem isElement_of_paramArrayCall {arrays : List ParamArray} {before ls : List Lexeme} {s : Site}
    (harrays : ∀ p ∈ arrays, IsElement row p.element)
    (h : paramArrayCall? arrays before ls = some s) : IsElement row s.element := by
  obtain ⟨array, harray, -, -, -, -, -, -, -, rfl⟩ := exists_callSite_of_paramArrayCall h
  exact harrays array harray

/-- The element types of the sites of a file are those of array types of its row. -/
theorem isElement_of_mem_sites {ls : List Lexeme} {s : Site} (h : s ∈ sites ls) :
    IsElement ls s.element := by
  obtain ⟨passed, here, hls, found, hfound, rfl⟩ := exists_found_of_mem_collected h
  have hhere : here ⊆ ls := hls ▸ List.subset_append_right passed here
  rw [Site.element_markAttribute, Site.element_shift]
  simp only [List.mem_append, Option.mem_toList] at hfound
  rcases hfound with (hfound | hfound) | hfound
  · exact isElement_of_creation hhere hfound
  · exact isElement_of_mem_declarationSites hhere hfound
  · refine isElement_of_paramArrayCall (fun p hp => ?_) hfound
    obtain ⟨front, place, rfl, hplace⟩ := exists_place_of_mem_atEachPlace hp
    have hsubset : place ⊆ front ++ place := List.subset_append_right front place
    exact isElement_of_paramArray hsubset (Option.mem_toList.1 hplace)

end ZeroAlloc.CSharp

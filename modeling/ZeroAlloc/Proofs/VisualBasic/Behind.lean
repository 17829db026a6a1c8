import ZeroAlloc.Proofs.Language.Imports
import ZeroAlloc.Proofs.Site.Behind
import ZeroAlloc.Proofs.Declaration
import ZeroAlloc.Proofs.VisualBasic.Extent
set_option autoImplicit false

/-! # Visual Basic behind a spacer

Behind a spacer a file has the same array creation sites, constants and generic methods. A statement
can start behind a line break, so the attribute blocks are the same there too
(`attributeBlocks_lineBreak`). Behind a byte-order mark none can: the attribute block and the import
statement at the start of the file go (`exists_attributeBlocks_byteOrderMark`,
`exists_imports_byteOrderMark`). -/

namespace ZeroAlloc.VisualBasic

variable {x : Lexeme} (h : x.IsSpacer)

section Spacer

include h

/-! ## At the spacer -/

theorem isKeyword_spacer (word : String) : isKeyword x word = false := by
  simp [isKeyword, h.isIdent]

/-! ## Sites -/

theorem levelsBefore?_concat (before : List Lexeme) :
    levelsBefore? (before ++ [x]) =
      (levelsBefore? before).map fun (levels, rest) => (levels, rest ++ [x]) := by
  fun_induction levelsBefore? before with
  | case1 => simp [levelsBefore?_cons, h.isPunct]
  | case2 l before hclose inside outside henclosing ih =>
    rw [List.cons_append, levelsBefore?_cons, if_pos hclose, BracketPair.enclosing?_concat h,
      henclosing, Option.map_map]
    simp only [Option.map_some, Option.bind_some, ih, Option.map_map]
    rfl
  | case3 l before hclose henclosing =>
    rw [List.cons_append, levelsBefore?_cons, if_pos hclose, BracketPair.enclosing?_concat h,
      henclosing]
    rfl
  | case4 l before hclose =>
    rw [List.cons_append, levelsBefore?_cons, if_neg hclose]
    rfl

theorem nameLevels?_concat (before : List Lexeme) :
    nameLevels? (before ++ [x]) = nameLevels? before := by
  have hmember (outside : List Lexeme) :
      (outside ++ [x]).head?.any (fun l => memberWords.contains (Text.lowerAscii l.text)) =
        outside.head?.any fun l => memberWords.contains (Text.lowerAscii l.text) :=
    any_head?_concat (by cases h <;> decide) outside
  rw [nameLevels?, nameLevels?, levelsBefore?_concat h]
  cases levelsBefore? before with
  | none => rfl
  | some found =>
    obtain ⟨levels, outside⟩ := found
    cases outside with
    | nil => simp [h.isIdent]
    | cons name outside =>
      simp only [Option.map_some, Option.bind_some, List.cons_append, hmember]

theorem declarationSite?_concat (before here : List Lexeme) :
    declarationSite? (before ++ [x]) here = declarationSite? before here := by
  unfold declarationSite?
  rw [nameLevels?_concat h]

theorem paramArray?_concat (before here : List Lexeme) :
    paramArray? (before ++ [x]) here = paramArray? before here := by
  unfold paramArray?
  rw [BracketPair.enclosing?_concat h]
  cases BracketPair.parens.enclosing? before with
  | none => rfl
  | some found =>
    obtain ⟨parameters, outside⟩ := found
    cases outside with
    | nil => simp [h.isIdent]
    | cons method outside => rfl

theorem paramArrayCall?_concat (arrays : List ParamArray) (before here : List Lexeme) :
    paramArrayCall? arrays (before ++ [x]) here = paramArrayCall? arrays before here := by
  have hcall : canCallAfter (before ++ [x]) = canCallAfter before := by
    cases before with
    | nil => simp [canCallAfter, h.isIdent]
    | cons l before => rfl
  unfold paramArrayCall?
  rw [hcall]

/-- The sites of a file behind a spacer. -/
theorem exists_sites_cons (ls : List Lexeme) :
    ∃ found : List Site,
      sites ls = found.map (Site.markAttribute (attributeBlocks [] 0 ls)) ∧
      sites (x :: ls) = found.map fun s =>
        (s.shift 1).markAttribute (attributeBlocks [] 0 (x :: ls)) := by
  have hkeyword (word : String) : startsWithKeyword word (x :: ls) = false :=
    isKeyword_spacer h word
  have harrays : atEachPlace (fun before here => (paramArray? before here).toList) [] (x :: ls) =
      atEachPlace (fun before here => (paramArray? before here).toList) [] ls :=
    atEachPlace_cons (by simp [paramArray?, hkeyword]) fun before here => by
      rw [paramArray?_concat h]
  unfold sites
  rw [harrays]
  refine exists_sites_behind ?_ (fun before here => ?_) _ _
  · simp [creation?, declarationSite?, hkeyword, paramArrayCall?, h.isIdent]
  · rw [declarationSite?_concat h, paramArrayCall?_concat h]

/-! ## Constants and generic methods -/

theorem constants_cons (ls : List Lexeme) : constants (x :: ls) = constants ls := by
  unfold constants
  rw [atEachPlace_cons (x := x)]
  · simp [startsWithKeyword, isKeyword_spacer h]
  · exact fun _ _ => rfl

theorem genericMethod?_concat (scopes : List Scope) (before here : List Lexeme) :
    genericMethod? scopes (before ++ [x]) here = genericMethod? scopes before here := by
  have hfollows : (["end", "exit", "declare"].any fun w =>
        (before ++ [x]).head?.any fun l => Text.lowerAscii l.text == w) =
      ["end", "exit", "declare"].any fun w =>
        before.head?.any fun l => Text.lowerAscii l.text == w := by
    cases before with
    | nil => cases h <;> decide
    | cons l before => rfl
  unfold genericMethod?
  simp only [hfollows]

theorem scopesAfter_concat (scopes : List Scope) (before here : List Lexeme) :
    scopesAfter scopes (before ++ [x]) here = scopesAfter scopes before here := by
  cases before with
  | cons l before => rfl
  | nil =>
    have hprevious {w : String} (hw : w ∈ ["end", "as"]) :
        (Text.lowerAscii x.text == w) = ("" == w) := by
      simp only [List.mem_cons, List.not_mem_nil, or_false] at hw
      rcases hw with rfl | rfl <;> cases h <;> decide
    have hpoint : startsWithPunct "." ([] ++ [x]) = startsWithPunct "." [] :=
      startsWithPunct_concat h "." []
    unfold scopesAfter
    simp only [List.nil_append, List.head?_cons, List.head?_nil, Option.map_some, Option.map_none,
      Option.getD_some, Option.getD_none, bne, hprevious (w := "end") (by simp),
      hprevious (w := "as") (by simp)] at hpoint ⊢
    rw [hpoint]
    rfl

theorem genericMethodsFrom_concat (scopes : List Scope) (before ls : List Lexeme) :
    genericMethodsFrom scopes (before ++ [x]) ls = genericMethodsFrom scopes before ls := by
  induction ls generalizing scopes before with
  | nil => rfl
  | cons l ls ih =>
    rw [genericMethodsFrom, genericMethodsFrom, genericMethod?_concat h, scopesAfter_concat h,
      ← List.cons_append, ih]

theorem genericMethods_cons (ls : List Lexeme) :
    genericMethods (x :: ls) = genericMethods ls := by
  have hafter (scopes : List Scope) : scopesAfter scopes [] (x :: ls) = scopes := by
    simp [scopesAfter, h.isIdent]
  have hmethod (scopes : List Scope) : genericMethod? scopes [] (x :: ls) = none := by
    cases ls with
    | nil => rfl
    | cons l ls => simp [genericMethod?, isKeyword_spacer h]
  rw [genericMethods, genericMethodsFrom, hafter, hmethod]
  exact genericMethodsFrom_concat h _ [] ls

end Spacer

/-! ## Attribute blocks -/

/-- A place at which a statement can start behind the spacer just if it can without it. -/
def StartsAlike (x : Lexeme) (before : List Lexeme) : Prop :=
  startsStatementAfter (before ++ [x]) = startsStatementAfter before

theorem startsAlike_cons (l : Lexeme) (before : List Lexeme) : StartsAlike x (l :: before) := rfl

include h in
theorem attributeBlock?_concat {before : List Lexeme} (hstart : StartsAlike x before)
    (here : List Lexeme) : attributeBlock? (before ++ [x]) here = attributeBlock? before here := by
  unfold attributeBlock?
  rw [hstart, startsWithPunct_concat h, startsWithPunct_concat h]

include h in
theorem attributeBlocks_concat {before : List Lexeme} (hstart : StartsAlike x before)
    (index : Nat) (ls : List Lexeme) :
    attributeBlocks (before ++ [x]) (index + 1) ls =
      (attributeBlocks before index ls).map fun (first, last) => (first + 1, last + 1) := by
  induction ls generalizing before index with
  | nil => rfl
  | cons l ls ih =>
    rw [attributeBlocks, attributeBlocks, attributeBlock?_concat h hstart, List.map_append,
      ← List.cons_append, ih (startsAlike_cons l before)]
    cases attributeBlock? before (l :: ls) with
    | none => rfl
    | some width => simp [Nat.add_right_comm _ 1]

include h in
/-- No block starts at a spacer. -/
theorem attributeBlock?_spacer (ls : List Lexeme) : attributeBlock? [] (x :: ls) = none := by
  have hopening : startsWithPunct "<" (x :: ls) = false := h.isPunct "<"
  rw [attributeBlock?, hopening]
  rfl

theorem startsAlike_lineBreak (before : List Lexeme) : StartsAlike ⟨.newline, "\n"⟩ before := by
  cases before <;> rfl

/-- Behind a line break, the blocks are those without it, moved up. -/
theorem attributeBlocks_lineBreak (ls : List Lexeme) :
    attributeBlocks [] 0 (⟨.newline, "\n"⟩ :: ls) =
      (attributeBlocks [] 0 ls).map fun (first, last) => (first + 1, last + 1) := by
  rw [attributeBlocks, attributeBlock?_spacer .lineBreak]
  exact attributeBlocks_concat .lineBreak (startsAlike_lineBreak []) 0 ls

/-- Behind a byte-order mark, the block at the start of a file is missed, and no others. -/
theorem exists_attributeBlocks_byteOrderMark (ls : List Lexeme) :
    ∃ missed others, AdjoinFrom 0 missed ∧
      attributeBlocks [] 0 ls = missed ++ others ∧
      attributeBlocks [] 0 (⟨.error, "\ufeff"⟩ :: ls) =
        others.map fun (first, last) => (first + 1, last + 1) := by
  rw [attributeBlocks, attributeBlock?_spacer .byteOrderMark]
  cases ls with
  | nil => exact ⟨[], [], .nil _, rfl, rfl⟩
  | cons l ls =>
    have hstart : attributeBlock? [⟨.error, "\ufeff"⟩] (l :: ls) = none := by
      unfold attributeBlock?
      split
      · split <;> rfl
      · rfl
    have hmore := attributeBlocks_concat .byteOrderMark (startsAlike_cons l []) 1 ls
    refine ⟨((attributeBlock? [] (l :: ls)).map fun width => (0, 0 + width + 1)).toList,
      attributeBlocks [l] 1 ls, ?_, rfl, ?_⟩
    · cases attributeBlock? [] (l :: ls) with
      | none => exact .nil _
      | some width => exact .cons (.nil _)
    · rw [← hmore, Option.map_none, Option.toList_none, List.nil_append, attributeBlocks, hstart]
      rfl

/-! ## Imports -/

/-- The clause of a statement that stands one lexeme further on. -/
theorem importClause?_succ (index : Nat) (ls : List Lexeme) :
    importClause? (index + 2) ls = (importClause? (index + 1) ls).map fun (i, rest) =>
      (i.map (Import.shift 1), rest) := by
  unfold importClause?
  split
  · rfl
  · dsimp only
    rw [Option.map_map]
    congr 1
    funext ⟨arguments, rest⟩
    dsimp only [Function.comp_apply]
    split
    · rfl
    · simp only [Option.map_some, Import.shift, Nat.add_right_comm _ 1, Nat.add_sub_cancel]

theorem importClauses_succ (index : Nat) (ls : List Lexeme) :
    importClauses (index + 2) ls = (importClauses (index + 1) ls).map (Import.shift 1) := by
  rw [importClauses_eq, importClauses_eq, importClause?_succ]
  cases hclause : importClause? (index + 1) ls with
  | none => rfl
  | some found =>
    obtain ⟨i, rest⟩ := found
    dsimp only [Option.map_some]
    rw [List.map_append, apply_ite (List.map _)]
    congr 1
    · cases i <;> rfl
    · split
      · rename_i hcomma
        have hlength := length_le_of_importClause hclause
        have hpos := length_pos_of_startsWithPunct hcomma
        rw [Nat.add_right_comm index 2, Nat.add_right_comm index 1]
        exact importClauses_succ _ _
      · rfl
termination_by ls.length
decreasing_by
  rw [List.length_tail]
  omega

/-- What is imported at a place. -/
def importsAt (before here : List Lexeme) : List Import :=
  if startsWithKeyword "imports" here && startsStatementAfter before then
    importClauses (before.length + 1) here.tail
  else []

theorem importsAt_concat {before : List Lexeme} (hstart : StartsAlike x before)
    (here : List Lexeme) :
    importsAt (before ++ [x]) here = (importsAt before here).map (Import.shift 1) := by
  rw [importsAt, importsAt, hstart, List.length_append, List.length_singleton]
  split
  · exact importClauses_succ _ _
  · rfl

theorem imports_concat {before : List Lexeme} (hstart : StartsAlike x before)
    (ls : List Lexeme) :
    atEachPlace importsAt (before ++ [x]) ls =
      (atEachPlace importsAt before ls).map (Import.shift 1) :=
  atEachPlace_concat (fun l before _ => startsAlike_cons l before)
    (fun _ here hbefore => importsAt_concat hbefore here) hstart ls

include h in
theorem imports_spacer (ls : List Lexeme) : imports (x :: ls) = atEachPlace importsAt [x] ls := by
  have hkeyword : startsWithKeyword "imports" (x :: ls) = false := isKeyword_spacer h "imports"
  change atEachPlace importsAt [] (x :: ls) = _
  rw [atEachPlace, importsAt, hkeyword]
  rfl

/-- The imports of the statement that the row starts with. -/
def leadingImports (ls : List Lexeme) : List Import :=
  if startsWithKeyword "imports" ls then importClauses 1 ls.tail else []

/-- Behind a byte-order mark, the statement at the start of a file is missed, and no others. -/
theorem exists_imports_byteOrderMark (ls : List Lexeme) :
    ∃ others, imports ls = leadingImports ls ++ others ∧
      imports (⟨.error, "\ufeff"⟩ :: ls) = others.map (Import.shift 1) := by
  rw [imports_spacer .byteOrderMark]
  cases ls with
  | nil => exact ⟨[], rfl, rfl⟩
  | cons l ls =>
    refine ⟨atEachPlace importsAt [l] ls, ?_, ?_⟩
    · change importsAt [] (l :: ls) ++ _ = _
      rw [importsAt, leadingImports, startsStatementAfter, Bool.and_true]
      rfl
    · have hstart : importsAt [⟨.error, "\ufeff"⟩] (l :: ls) = [] := by
        rw [importsAt, if_neg]
        simp [startsStatementAfter, Lexeme.isNewline, Lexeme.isPunct]
      rw [atEachPlace, hstart]
      exact imports_concat (startsAlike_cons l []) ls

end ZeroAlloc.VisualBasic

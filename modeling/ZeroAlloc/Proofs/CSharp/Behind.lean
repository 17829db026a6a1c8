import ZeroAlloc.CSharp.Creation
import ZeroAlloc.CSharp.Declaration
import ZeroAlloc.Proofs.CSharp.Extent
import ZeroAlloc.Proofs.Site.Behind
set_option autoImplicit false

/-! # C# behind a spacer

Behind a spacer a file has the same array creation sites, constants and generic methods. What goes
is what needs the very start of a file: an import directive there (`exists_imports_cons`), and the
attribute sections there, with those directly behind them (`exists_attributeSections_cons`). -/

namespace ZeroAlloc.CSharp

variable {x : Lexeme} (h : x.IsSpacer)
include h

/-! ## At the spacer -/

theorem typeRef?_spacer (ls : List Lexeme) : typeRef? (x :: ls) = none := by
  have hglobal : (x.text == "global") = false := by cases h <;> decide
  simp [typeRef?, typeName?, isTypeWord, h.isPunct, h.isIdent, hglobal]

/-! ## Sites -/

theorem declarationSites_concat (before here : List Lexeme) :
    declarationSites (before ++ [x]) here = declarationSites before here := by
  have hstart : startsWithText [".", "new", ":"] (before ++ [x]) =
      startsWithText [".", "new", ":"] before :=
    any_head?_concat (by cases h <;> decide) before
  rw [declarationSites, hstart]
  rfl

theorem paramArray?_concat (before here : List Lexeme) :
    paramArray? (before ++ [x]) here = paramArray? before here := by
  unfold paramArray?
  rw [BracketPair.enclosing?_concat h]
  cases BracketPair.parens.enclosing? before with
  | none => rfl
  | some found =>
    obtain ⟨parameters, outside⟩ := found
    cases outside with
    | nil => simp [h.isIdent]
    | cons method outside => rfl

theorem paramArrayCall?_concat (arrays : List ParamArray) (before here : List Lexeme) :
    paramArrayCall? arrays (before ++ [x]) here = paramArrayCall? arrays before here := by
  have hcall : canCallAfter (before ++ [x]) = canCallAfter before := by
    cases before with
    | nil => simp [canCallAfter, h.isIdent]
    | cons l before => rfl
  unfold paramArrayCall?
  rw [hcall]

/-- The sites of a file behind a spacer. -/
theorem exists_sites_cons (ls : List Lexeme) :
    ∃ found : List Site,
      sites ls = found.map (Site.markAttribute (attributeSections [] 0 none ls)) ∧
      sites (x :: ls) = found.map fun s =>
        (s.shift 1).markAttribute (attributeSections [] 0 none (x :: ls)) := by
  have harrays : atEachPlace (fun before here => (paramArray? before here).toList) [] (x :: ls) =
      atEachPlace (fun before here => (paramArray? before here).toList) [] ls :=
    atEachPlace_cons (by simp [paramArray?, h.isWord]) fun before here => by
      rw [paramArray?_concat h]
  unfold sites
  rw [harrays]
  refine exists_sites_behind ?_ (fun before here => ?_) _ _
  · simp [creation?, h.isWord, declarationSites, typeRef?_spacer h, paramArrayCall?, h.isIdent]
  · rw [declarationSites_concat h, paramArrayCall?_concat h]

/-! ## Attribute sections -/

omit h in
/-- A section that is told without one directly before it is told with one as well. -/
theorem attributeSection?_of_apart {before ls : List Lexeme} {width : Nat}
    (happart : attributeSection? before ls false = some width) (adjoins : Bool) :
    attributeSection? before ls adjoins = some width := by
  cases adjoins with
  | false => exact happart
  | true =>
    have hmono {after : List Lexeme} (hsection : isAttributeSection before after false = true) :
        isAttributeSection before after true = true := by
      unfold isAttributeSection at hsection ⊢
      split
      · exact hsection
      · split
        · simp_all
        · split <;> simp_all
    unfold attributeSection? at happart ⊢
    split at happart
    · rename_i hname
      rw [if_pos hname]
      split at happart
      · split at happart
        · rename_i hsection
          rw [if_pos (hmono hsection)]
          exact happart
        · cases happart
      · cases happart
    · cases happart

omit h in
/-- A spacer is looked at by none but the first section. -/
theorem attributeSection?_concat (l : Lexeme) (before here : List Lexeme) (adjoins : Bool) :
    attributeSection? (l :: before ++ [x]) here adjoins =
      attributeSection? (l :: before) here adjoins := rfl

omit h in
/-- With the same section before them, sections are told alike. -/
theorem attributeSections_concat (l : Lexeme) (before : List Lexeme) (index : Nat)
    (previous : Option Nat) (ls : List Lexeme) :
    attributeSections (l :: before ++ [x]) (index + 1) (previous.map (· + 1)) ls =
      (attributeSections (l :: before) index previous ls).map
        fun (first, last) => (first + 1, last + 1) := by
  induction ls generalizing l before index previous with
  | nil => rfl
  | cons next ls ih =>
    have hadjoins : (previous.map (· + 1)).any (· + 1 == index + 1) =
        previous.any (· + 1 == index) := by
      cases previous <;> simp
    rw [attributeSections, attributeSections, attributeSection?_concat, hadjoins]
    cases hsection : attributeSection? (l :: before) (next :: ls)
        (previous.any (· + 1 == index)) with
    | none => exact ih next (l :: before) (index + 1) previous
    | some width =>
      have hlast : index + 1 + width + 1 = index + width + 1 + 1 := by omega
      have hmore := ih next (l :: before) (index + 1) (some (index + width + 1))
      dsimp only
      rw [hlast, List.map_cons, ← hmore]
      rfl

omit h in
/-- Where a section is missed, those directly behind it are missed as well, and no others. -/
theorem exists_attributeSections_concat (l : Lexeme) (before : List Lexeme) (index last : Nat)
    (ls : List Lexeme) :
    ∃ missed others, AdjoinFrom (last + 1) missed ∧
      attributeSections (l :: before) index (some last) ls = missed ++ others ∧
      attributeSections (l :: before ++ [x]) (index + 1) none ls =
        others.map fun (first, last) => (first + 1, last + 1) := by
  induction ls generalizing l before index last with
  | nil => exact ⟨[], [], .nil _, rfl, rfl⟩
  | cons next ls ih =>
    rw [attributeSections, attributeSections, attributeSection?_concat, Option.any_some,
      Option.any_none]
    cases happart : attributeSection? (l :: before) (next :: ls) false with
    | some width =>
      -- the section needs none before it, so it is told in both rows, and they agree from here on
      have hlast : index + 1 + width + 1 = index + width + 1 + 1 := by omega
      have hmore := attributeSections_concat (x := x) next (l :: before) (index + 1)
        (some (index + width + 1)) ls
      rw [attributeSection?_of_apart happart (last + 1 == index)]
      refine ⟨[], _, .nil _, rfl, ?_⟩
      dsimp only
      rw [hlast, List.map_cons, ← hmore]
      rfl
    | none =>
      cases hadjoins : last + 1 == index with
      | false =>
        rw [happart]
        exact ih next (l :: before) (index + 1) last
      | true =>
        obtain rfl : last + 1 = index := by simpa using hadjoins
        cases hsection : attributeSection? (l :: before) (next :: ls) true with
        | none => exact ih next (l :: before) (last + 1 + 1) last
        | some width =>
          obtain ⟨missed, others, hmissed, hfound, hrest⟩ :=
            ih next (l :: before) (last + 1 + 1) (last + 1 + width + 1)
          exact ⟨_ :: missed, others, .cons hmissed, congrArg _ hfound, hrest⟩

/-- Behind a spacer, the section at the start of a file is missed with all that stand directly
behind it, and no others. -/
theorem exists_attributeSections_cons (ls : List Lexeme) :
    ∃ missed others, AdjoinFrom 0 missed ∧
      attributeSections [] 0 none ls = missed ++ others ∧
      attributeSections [] 0 none (x :: ls) =
        others.map fun (first, last) => (first + 1, last + 1) := by
  have hspacer : attributeSection? [] (x :: ls) false = none := by
    have hgroup : BracketPair.squares.group? (x :: ls) = none :=
      group_eq_none (h.isPunct _)
    simp [attributeSection?, hgroup]
  have hstart (here : List Lexeme) : attributeSection? [x] here false = none := by
    have hsection (after : List Lexeme) : isAttributeSection [x] after false = false := by
      cases h <;> rfl
    unfold attributeSection?
    simp only [hsection, Bool.false_eq_true, if_false]
    split
    · split <;> rfl
    · rfl
  rw [attributeSections, Option.any_none, hspacer]
  dsimp only
  cases ls with
  | nil => exact ⟨[], [], .nil _, rfl, rfl⟩
  | cons l ls =>
    rw [attributeSections, attributeSections, Option.any_none, Option.any_none, hstart]
    dsimp only
    cases hsection : attributeSection? [] (l :: ls) false with
    | none => exact ⟨[], _, .nil _, rfl, attributeSections_concat l [] 1 none ls⟩
    | some width =>
      obtain ⟨missed, others, hmissed, hfound, hrest⟩ :=
        exists_attributeSections_concat (x := x) l [] 1 (0 + width + 1) ls
      exact ⟨_ :: missed, others, .cons hmissed, congrArg _ hfound, hrest⟩

/-! ## Imports -/

omit h in
/-- The directive of a word that stands one lexeme further on. -/
theorem import?_succ (index : Nat) (ls : List Lexeme) :
    CSharp.import? (index + 1) ls = (import? index ls).map (Import.shift 1) := by
  unfold import?
  dsimp only
  split
  · rfl
  · simp only [Option.map_some, Import.shift, Nat.add_right_comm _ 1]

omit h in
/-- A spacer is looked at by no directive but one at the start of the file. -/
theorem importsFrom_concat (l : Lexeme) (before : List Lexeme) (index depth : Nat)
    (ls : List Lexeme) :
    importsFrom (l :: before ++ [x]) (index + 1) depth ls =
      (importsFrom (l :: before) index depth ls).map (Import.shift 1) := by
  induction ls generalizing l before index depth with
  | nil => rfl
  | cons next ls ih =>
    have hmore (depth : Nat) := ih next (l :: before) (index + 1) depth
    have hafter : canImportAfter (l :: before ++ [x]) = canImportAfter (l :: before) := rfl
    rw [importsFrom, importsFrom, hafter]
    dsimp only
    split
    · exact hmore _
    · split
      · exact hmore _
      · split
        · rw [import?_succ, List.map_append, ← hmore]
          cases import? index ls <;> rfl
        · exact hmore _

/-- The directive that the row starts with. -/
def leadingImport? : List Lexeme → Option Import
  | [] => none
  | l :: ls => if l.isWord "using" then import? 0 ls else none

/-- Behind a spacer, the directive at the start of a file is missed, and no others. -/
theorem exists_imports_cons (ls : List Lexeme) :
    ∃ others, imports ls = (leadingImport? ls).toList ++ others ∧
      imports (x :: ls) = others.map (Import.shift 1) := by
  have hspacer : imports (x :: ls) = importsFrom [x] 1 0 ls := by
    simp [imports, importsFrom, h.isPunct, h.isWord]
  have hafter : canImportAfter [x] = false := by cases h <;> decide
  rw [hspacer, imports]
  cases ls with
  | nil => exact ⟨[], rfl, rfl⟩
  | cons l ls =>
    have hmore (depth : Nat) := importsFrom_concat (x := x) l [] 1 depth ls
    have hbrace {p : String} (hp : l.isPunct p = true) : leadingImport? (l :: ls) = none := by
      simp only [Lexeme.isPunct, Bool.and_eq_true, decide_eq_true_eq] at hp
      simp [leadingImport?, Lexeme.isWord, hp.1]
    rw [importsFrom, importsFrom, hafter, Bool.and_false]
    dsimp only
    split
    · rename_i hopening
      rw [hbrace hopening]
      exact ⟨_, rfl, hmore 1⟩
    · split
      · rename_i hclosing
        rw [hbrace hclosing]
        exact ⟨_, rfl, hmore 0⟩
      · refine ⟨_, ?_, hmore 0⟩
        cases husing : l.isWord "using" <;> simp [leadingImport?, husing, canImportAfter]

/-! ## Constants and generic methods -/

theorem constants_cons (ls : List Lexeme) : constants (x :: ls) = constants ls := by
  unfold constants
  rw [atEachPlace_cons (x := x)]
  · simp [h.isWord]
  · exact fun _ _ => rfl

theorem genericMethod?_concat (n : Nesting) (before here : List Lexeme) :
    genericMethod? n (before ++ [x]) here = genericMethod? n before here := by
  have hdeclares : declaresAfter (before ++ [x]) = declaresAfter before := by
    cases before with
    | nil => cases h <;> decide
    | cons l before => rfl
  unfold genericMethod?
  rw [hdeclares]

theorem genericMethodsFrom_concat (n : Nesting) (before ls : List Lexeme) :
    genericMethodsFrom n (before ++ [x]) ls = genericMethodsFrom n before ls := by
  induction ls generalizing n before with
  | nil => rfl
  | cons l ls ih =>
    rw [genericMethodsFrom, genericMethodsFrom, genericMethod?_concat h, ← List.cons_append, ih]

theorem genericMethods_cons (ls : List Lexeme) :
    genericMethods (x :: ls) = genericMethods ls := by
  have hafter (n : Nesting) : n.after (x :: ls) = n := by
    simp [Nesting.after, h.isPunct, h.isWord]
  have hmethod (n : Nesting) : genericMethod? n [] (x :: ls) = none := by
    simp [genericMethod?, h.isIdent]
  rw [genericMethods, genericMethodsFrom, hafter, hmethod]
  exact genericMethodsFrom_concat h _ [] ls

end ZeroAlloc.CSharp

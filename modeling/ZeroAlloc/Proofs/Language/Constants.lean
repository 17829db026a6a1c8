import ZeroAlloc.Fold
import ZeroAlloc.Proofs.Fold
import ZeroAlloc.Proofs.SizeExpr.Names
set_option autoImplicit false

/-! # Constants in each language

The table of constants holds the first declaration of each name (`Constants.get?_ofDeclarations`);
it is one of the choices that take some declaration of each name. The value of a size expression
depends on the constants that it mentions, directly or through their definitions, and on no others
(`fold_congr`), and so does the length of an array. -/

namespace ZeroAlloc

namespace Constants

/-- Recording declarations leaves what is there and adds the first of each new name. -/
theorem get?_foldl_declare (declarations : List (String × List Lexeme)) (constants : Constants)
    (name : String) :
    (declarations.foldl (fun constants (name, definition) => constants.declare name definition)
      constants).get? name = (constants.get? name).or (declarations.lookup name) := by
  induction declarations generalizing constants with
  | nil => simp
  | cons declaration declarations ih =>
    obtain ⟨declared, definition⟩ := declaration
    rw [List.foldl_cons, ih, List.lookup_cons]
    by_cases h : name = declared
    · subst h
      -- what has been recorded stays, and the new definition counts only if there was none
      rw [get?_declare_self, beq_self_eq_true]
      cases constants.get? name <;> rfl
    · rw [get?_declare_of_ne constants h, beq_false_of_ne h]

theorem get?_ofDeclarations (declarations : List (String × List Lexeme)) (name : String) :
    (ofDeclarations declarations).get? name = declarations.lookup name :=
  get?_foldl_declare declarations [] name

/-- A table that takes one of the declarations of each declared name. -/
structure IsChoiceOf (declarations : List (String × List Lexeme)) (choice : Constants) : Prop where
  declared : ∀ {name definition}, choice.get? name = some definition →
    (name, definition) ∈ declarations
  total : ∀ {name definition}, (name, definition) ∈ declarations → (choice.get? name).isSome

theorem mem_of_lookup {declarations : List (String × List Lexeme)} {name : String}
    {definition : List Lexeme} (h : declarations.lookup name = some definition) :
    (name, definition) ∈ declarations := by
  obtain ⟨before, after, rfl, _⟩ := List.lookup_eq_some_iff.1 h
  simp

theorem isSome_lookup_of_mem {declarations : List (String × List Lexeme)} {name : String}
    {definition : List Lexeme} (h : (name, definition) ∈ declarations) :
    (declarations.lookup name).isSome := by
  rw [Option.isSome_iff_ne_none]
  intro hnone
  have := List.lookup_eq_none_iff.1 hnone _ h
  simp at this

theorem isChoiceOf_ofDeclarations (declarations : List (String × List Lexeme)) :
    IsChoiceOf declarations (ofDeclarations declarations) where
  declared h := mem_of_lookup (get?_ofDeclarations declarations _ ▸ h)
  total h := by
    rw [get?_ofDeclarations]
    exact isSome_lookup_of_mem h

/-- Where all declarations of a name are alike, every choice takes the first one. -/
theorem IsChoiceOf.get?_eq_lookup {declarations : List (String × List Lexeme)} {choice : Constants}
    (h : IsChoiceOf declarations choice) {name : String}
    (halike : ∀ {definition other}, (name, definition) ∈ declarations →
      (name, other) ∈ declarations → definition = other) :
    choice.get? name = declarations.lookup name := by
  cases hchoice : choice.get? name with
  | some definition =>
    have hmem := h.declared hchoice
    obtain ⟨first, hfirst⟩ := Option.isSome_iff_exists.1 (isSome_lookup_of_mem hmem)
    rw [hfirst, halike hmem (mem_of_lookup hfirst)]
  | none =>
    cases hlookup : declarations.lookup name with
    | none => rfl
    | some first =>
      have := h.total (mem_of_lookup hlookup)
      rw [hchoice] at this
      cases this

end Constants

/-- The row mentions the name: it stands there, or in the definition of a name that the row
mentions. Names are in their canonical form. -/
inductive Mentions (d : Dialect) (constants : Constants) (ls : List Lexeme) : String → Prop where
  | written {l : Lexeme} (hl : l ∈ ls) (hident : l.isIdent = true) :
      Mentions d constants ls (d.canonicalName l.text)
  | through {name : String} {definition : List Lexeme} {l : Lexeme}
      (h : Mentions d constants ls name) (hget : constants.get? name = some definition)
      (hl : l ∈ definition) (hident : l.isIdent = true) :
      Mentions d constants ls (d.canonicalName l.text)

variable {d : Dialect} {constants other : Constants} {ls : List Lexeme}

namespace Mentions

theorem mono {more : List Lexeme} (hsubset : ls ⊆ more) {name : String}
    (h : Mentions d constants ls name) : Mentions d constants more name := by
  induction h with
  | written hl hident => exact .written (hsubset hl) hident
  | through _ hget hl hident ih => exact .through ih hget hl hident

/-- What the definition of a mentioned name mentions is mentioned. -/
theorem trans {name : String} {definition : List Lexeme} (h : Mentions d constants ls name)
    (hget : constants.get? name = some definition) {inner : String}
    (hinner : Mentions d constants definition inner) : Mentions d constants ls inner := by
  induction hinner with
  | written hl hident => exact .through h hget hl hident
  | through _ hget' hl hident ih => exact .through ih hget' hl hident

end Mentions

/-- The tables have the same definitions for all names that the row mentions. -/
def AgreeOn (d : Dialect) (constants other : Constants) (ls : List Lexeme) : Prop :=
  ∀ name, Mentions d constants ls name → other.get? name = constants.get? name

theorem AgreeOn.mono {more : List Lexeme} (h : AgreeOn d constants other more)
    (hsubset : ls ⊆ more) : AgreeOn d constants other ls :=
  fun name hname => h name (hname.mono hsubset)

theorem foldWithin_congr (hcasts : d.CastsInBrackets) (levels : Nat)
    (h : AgreeOn d constants other ls) :
    foldWithin d other levels ls = foldWithin d constants levels ls := by
  induction levels generalizing ls with
  | zero => rfl
  | succ levels ih =>
    rw [foldWithin, foldWithin]
    cases hparse : SizeExpr.parse? d ls with
    | none => rfl
    | some e =>
      refine SizeExpr.eval?_congr fun name hname => ?_
      have hspells := (SizeExpr.parse?_eq_some_iff hcasts).1 hparse
      obtain ⟨l, hl, hident, rfl⟩ := hspells.exists_of_mem_names hname
      have hmentioned : Mentions d constants ls (d.canonicalName l.text) := .written hl hident
      rw [h _ hmentioned]
      cases hget : constants.get? (d.canonicalName l.text) with
      | none => rfl
      | some definition => exact ih fun inner hinner => h inner (hmentioned.trans hget hinner)

theorem fold_congr (hcasts : d.CastsInBrackets) (h : AgreeOn d constants other ls) :
    fold d other ls = fold d constants ls :=
  foldWithin_congr hcasts _ h

/-- The declarations of constants in a file, in order. -/
def CSharp.constantDeclarations (ls : List Lexeme) : List (String × List Lexeme) :=
  atEachPlace (fun _ here =>
    if here.head?.any (·.isWord "const") then
      match typeRef? here.tail with
      | some (_, rest) => constantDeclarators rest
      | none => []
    else []) [] ls

/-- The declarations of constants in a file, in order, with their names in lower case. -/
def VisualBasic.constantDeclarations (ls : List Lexeme) : List (String × List Lexeme) :=
  atEachPlace (fun _ here =>
    if startsWithKeyword "const" here then constantDeclarators here.tail else []) [] ls

namespace VisualBasic

theorem upperBound?_congr {constants other : Constants} {bound : List Lexeme}
    (h : AgreeOn dialect constants other bound) :
    upperBound? other bound = upperBound? constants bound := by
  unfold upperBound?
  cases hupper : bound.dropWhile (!isTo ·) with
  | nil => exact fold_congr castsInBrackets h
  | cons mark upper =>
    have hrest : upper ⊆ bound := by
      have hdrop := (List.dropWhile_suffix (!isTo ·) (l := bound)).subset
      rw [hupper] at hdrop
      exact List.subset_of_cons_subset hdrop
    have hlower : bound.takeWhile (!isTo ·) ⊆ bound := (List.takeWhile_prefix _).subset
    dsimp only
    rw [fold_congr castsInBrackets (h.mono hlower), fold_congr castsInBrackets (h.mono hrest)]

end VisualBasic

namespace Language

/-- The declarations of constants in a file, in order. -/
def constantDeclarations : Language → List Lexeme → List (String × List Lexeme)
  | csharp => CSharp.constantDeclarations
  | visualBasic => VisualBasic.constantDeclarations

theorem constants_eq_ofDeclarations (language : Language) (ls : List Lexeme) :
    language.constants ls = .ofDeclarations (language.constantDeclarations ls) := by
  cases language <;> rfl

/-- The length of an array depends on the constants that its size mentions. -/
theorem length?_congr {language : Language} {constants other : Constants} {size : List Lexeme}
    (h : AgreeOn language.dialect constants other size) :
    language.length? other size = language.length? constants size := by
  cases language with
  | csharp =>
    change (fold CSharp.dialect other size).filter _ = (fold CSharp.dialect constants size).filter _
    rw [fold_congr CSharp.castsInBrackets h]
  | visualBasic =>
    change (VisualBasic.upperBound? other size).bind _ =
      (VisualBasic.upperBound? constants size).bind _
    rw [VisualBasic.upperBound?_congr h]

end Language

end ZeroAlloc

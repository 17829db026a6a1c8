import Mathlib.Data.List.Dedup
import ZeroAlloc.Proofs.CSharp.Constants
import ZeroAlloc.Proofs.Document.Attributes
import ZeroAlloc.Proofs.Respelling.Document
import ZeroAlloc.Proofs.VisualBasic.Constants
set_option autoImplicit false

/-! # Constants of a file

The table of constants has one entry for each name (`Constants.length_ofDeclarations`). So in a file
that declares constants, each name stands for its first definition, and there are as many constants
as different names (`Document.constants_of_declarations`). In C# the type has to be one that is read
as a whole; the constants of a nullable array type are missed
(`Document.not_forall_constants_of_derives`). -/

namespace ZeroAlloc

/-! ## Tables of constants -/

namespace Constants

theorem isSome_get?_iff {constants : Constants} {name : String} :
    (constants.get? name).isSome = true ↔ name ∈ constants.map Prod.fst := by
  constructor
  · intro h
    obtain ⟨definition, hget⟩ := Option.isSome_iff_exists.1 h
    exact List.mem_map.2 ⟨_, mem_of_lookup hget, rfl⟩
  · intro h
    obtain ⟨⟨_, definition⟩, hmem, rfl⟩ := List.mem_map.1 h
    exact isSome_lookup_of_mem hmem

/-- A declaration adds its name if that is new. -/
theorem map_fst_declare (constants : Constants) (name : String) (definition : List Lexeme) :
    (constants.declare name definition).map Prod.fst =
      if name ∈ constants.map Prod.fst then constants.map Prod.fst
      else constants.map Prod.fst ++ [name] := by
  rw [declare]
  by_cases hname : name ∈ constants.map Prod.fst
  · rw [if_pos (isSome_get?_iff.2 hname), if_pos hname]
  · rw [if_neg (mt isSome_get?_iff.1 hname), if_neg hname, List.map_append]
    rfl

/-- Declarations keep the names of a table distinct. -/
theorem nodup_foldl_declare (declarations : List (String × List Lexeme)) {constants : Constants}
    (h : (constants.map Prod.fst).Nodup) :
    ((declarations.foldl (fun constants (name, definition) => constants.declare name definition)
      constants).map Prod.fst).Nodup := by
  induction declarations generalizing constants with
  | nil => exact h
  | cons declaration declarations ih =>
    refine ih ?_
    rw [map_fst_declare]
    split
    · exact h
    · rename_i hnew
      rw [← List.concat_eq_append]
      exact h.concat hnew

/-- There are as many entries as different names. -/
theorem length_ofDeclarations (declarations : List (String × List Lexeme)) :
    (ofDeclarations declarations).length = (declarations.map Prod.fst).dedup.length := by
  have hnames : ((ofDeclarations declarations).map Prod.fst).Perm
      (declarations.map Prod.fst).dedup := by
    -- both lists hold each declared name once
    have hempty : (([] : Constants).map Prod.fst).Nodup := List.nodup_nil
    refine (List.perm_ext_iff_of_nodup (nodup_foldl_declare declarations hempty)
      (List.nodup_dedup _)).2 fun name => ?_
    rw [List.mem_dedup]
    calc name ∈ (ofDeclarations declarations).map Prod.fst
        ↔ ((ofDeclarations declarations).get? name).isSome = true := isSome_get?_iff.symm
      _ ↔ (get? declarations name).isSome = true := by
        rw [get?_ofDeclarations]
        rfl
      _ ↔ name ∈ declarations.map Prod.fst := isSome_get?_iff
  rw [← hnames.length_eq, List.length_map]

end Constants

/-! ## Declarations -/

namespace Language

/-- The declarations of constants in the language. -/
def ConstantDeclaration : Language → Type
  | csharp => CSharp.ConstantDeclaration
  | visualBasic => VisualBasic.ConstantDeclaration

/-- The lexemes of a declaration, with what stands in front of it. -/
def constantRow : (language : Language) → language.ConstantDeclaration → List Lexeme
  | csharp => CSharp.ConstantDeclaration.row
  | visualBasic => VisualBasic.ConstantDeclaration.row

/-- The names and definitions in a declaration. -/
def entries : (language : Language) → language.ConstantDeclaration → List (String × List Lexeme)
  | csharp => CSharp.ConstantDeclaration.entries
  | visualBasic => VisualBasic.ConstantDeclaration.entries

/-- The type in the declaration is read as a whole. In Visual Basic it is not read. -/
def IsTypeRead : (language : Language) → language.ConstantDeclaration → Prop
  | csharp => CSharp.ConstantDeclaration.IsTypeRead
  | visualBasic => fun _ => True

/-- Whether the lexeme is the word that declares constants. -/
def isConst : Language → Lexeme → Bool
  | csharp => CSharp.isConst
  | visualBasic => VisualBasic.isConst

variable {language : Language}

theorem constantDeclarations_rows {ds : List language.ConstantDeclaration}
    (htypes : ∀ d ∈ ds, language.IsTypeRead d) {rest : List Lexeme}
    (h : ∀ l ∈ rest, language.isConst l = false) :
    language.constantDeclarations (ds.flatMap language.constantRow ++ rest) =
      (ds.flatMap language.entries).map fun p => (language.dialect.canonicalName p.1, p.2) := by
  cases language with
  | csharp => exact CSharp.constantDeclarations_eq htypes h
  | visualBasic => exact VisualBasic.constantDeclarations_eq ds h

/-- Names are looked up in their canonical forms. -/
theorem lookup_canonicalName (declarations : List (String × List Lexeme)) (name : String) :
    (declarations.map fun p => (language.dialect.canonicalName p.1, p.2)).lookup
      (language.dialect.canonicalName name) =
      (declarations.find? fun p => language.namesEqual p.1 name).map Prod.snd := by
  induction declarations with
  | nil => rfl
  | cons p declarations ih =>
    rw [List.map_cons, List.lookup_cons, List.find?_cons]
    cases hname : language.namesEqual p.1 name with
    | true =>
      rw [← namesEqual_iff.1 hname, beq_self_eq_true]
      rfl
    | false =>
      have hne : language.dialect.canonicalName name ≠ language.dialect.canonicalName p.1 :=
        fun h => Bool.eq_false_iff.1 hname (namesEqual_iff.2 h.symm)
      rw [beq_false_of_ne hne]
      exact ih

end Language

namespace Document

/-- The document holds the declarations, and the word that declares constants in no other place. -/
structure DeclaresConstants (doc : Document) {language : Language}
    (ds : List language.ConstantDeclaration) (rest : List Lexeme) : Prop where
  lexemes_eq : lexemes doc.tokens.toList = ds.flatMap language.constantRow ++ rest
  isOther : ∀ l ∈ rest, language.isConst l = false

variable {language : Language} {path source : String}

/-- Each name stands for its first definition in the file, and there are as many constants as
different names. -/
theorem constants_of_declarations {ds : List language.ConstantDeclaration} {rest : List Lexeme}
    (h : (read language path source).DeclaresConstants ds rest)
    (htypes : ∀ d ∈ ds, language.IsTypeRead d) :
    (∀ name, (read language path source).constants.get? (language.dialect.canonicalName name) =
        ((ds.flatMap language.entries).find?
          fun p => language.namesEqual p.1 name).map Prod.snd) ∧
      (read language path source).constants.length = ((ds.flatMap language.entries).map
        fun p => language.dialect.canonicalName p.1).dedup.length := by
  have hconstants : (read language path source).constants = .ofDeclarations
      ((ds.flatMap language.entries).map
        fun p => (language.dialect.canonicalName p.1, p.2)) := by
    rw [← Language.constantDeclarations_rows htypes h.isOther, ← h.lexemes_eq,
      ← Language.constants_eq_ofDeclarations]
    rfl
  constructor
  · intro name
    rw [hconstants, Constants.get?_ofDeclarations, Language.lookup_canonicalName]
  · rw [hconstants, Constants.length_ofDeclarations, List.map_map]
    rfl

/-! ## An example of both languages -/

section Example

open SizeExpr

variable {d : Dialect}

theorem exists_spells_number (hcasts : d.CastsInBrackets) (number : String) :
    ∃ e, Spells d .sum [⟨.number, number⟩] e [] :=
  ⟨_, .ofProduct (.ofOperand (.number hcasts rfl []))⟩

/-- The lexemes of a conversion of a number to a type `D.E`. -/
def conversionOf (word : String) : List Lexeme := [
  .word word, .punct "(", ⟨.number, "2"⟩, .punct ",", .word "D", .punct ".", .word "E", .punct ")"]

theorem exists_spells_conversionOf (hcasts : d.CastsInBrackets) {word : String}
    (hword : d.isConversion word = true) : ∃ e, Spells d .sum (conversionOf word) e [] := by
  have hnested : BracketPair.parens.Nested [.word "D", .punct ".", .word "E"] :=
    .plain rfl rfl (.plain rfl rfl (.plain rfl rfl .nil))
  have hend : EndsConversion ((conversionOf word).drop 3) [] := .further rfl hnested rfl
  have hnumber : Spells d .sum ((conversionOf word).drop 2) _ ((conversionOf word).drop 3) :=
    .ofProduct (.ofOperand (.number hcasts rfl _))
  exact ⟨_, .ofProduct (.ofOperand (.ofPrimary (castWidth?_eq_none_of_startsWithPunct hcasts rfl)
    (.convert rfl hword rfl hnumber hend)))⟩

/-- The lexemes of `(S.Int32)1 - (b * 2)`. -/
def castDifference : List Lexeme := [
  .punct "(", .word "S", .punct ".", .word "Int32", .punct ")", ⟨.number, "1"⟩, .punct "-",
  .punct "(", .word "b", .punct "*", ⟨.number, "2"⟩, .punct ")"]

theorem exists_spells_castDifference :
    ∃ e, Spells CSharp.dialect .sum castDifference e [] := by
  have hd := CSharp.castsInBrackets
  have hwidth : CSharp.dialect.castWidth? castDifference = some 5 := rfl
  have hname : Spells CSharp.dialect .product (castDifference.drop 8) (.constant "b")
      (castDifference.drop 9) := .ofOperand (.ofPrimary rfl (.constant rfl rfl))
  have hfactor : Spells CSharp.dialect .operand (castDifference.drop 10) (.literal "2")
      (castDifference.drop 11) := .number hd rfl _
  have hproduct := Spells.multiply hname rfl hfactor
  have hgroup : Spells CSharp.dialect .product (castDifference.drop 7) _ [] :=
    .ofOperand (.ofPrimary rfl (.group rfl (.ofProduct hproduct) rfl))
  exact ⟨_, .subtract (.ofProduct (.ofOperand (.cast hwidth (.number hd rfl _)))) rfl hgroup⟩

/-- The first two constants of the file, the second one with a conversion. -/
def twoConstants : CSharp.ConstantDeclaration where
  before := lexemesOf .csharp "class C \x7b"
  type := lexemesOf .csharp "A<int, B>.D"
  isOther := by decide +kernel
  first := ⟨.word "a", rfl, castDifference, exists_spells_castDifference, by decide, by decide⟩
  more := [⟨.word "b", rfl, conversionOf "checked",
    exists_spells_conversionOf CSharp.castsInBrackets rfl, by decide, by decide⟩]

/-- A constant with the name of the first one. -/
def repeatedConstant : CSharp.ConstantDeclaration where
  before := []
  type := [.word "int"]
  isOther := by decide
  first := ⟨.word "a", rfl, [⟨.number, "3"⟩], exists_spells_number CSharp.castsInBrackets "3",
    by decide, by decide⟩
  more := []

def csharpConstants : List Language.csharp.ConstantDeclaration := [twoConstants, repeatedConstant]

def csharpConstantSource : String :=
  "class C \x7b const A<int, B>.D a = (S.Int32)1 - (b * 2), b = checked(2, D.E); " ++
    "const int a = 3; \x7d"

/-- A constant with a type, and one without. -/
def typedConstant : VisualBasic.ConstantDeclaration where
  before := []
  isOther := by decide
  word := .word "Const"
  isConst_word := by decide
  first := {
    name := .word "A"
    isName := rfl
    value := conversionOf "CType"
    isExpression := exists_spells_conversionOf VisualBasic.castsInBrackets (by decide)
    isOnLine := by decide
    isOther := by decide
    clause := lexemesOf .visualBasic "As X(Of B, C)"
    isClause := by decide +kernel }
  more := [{
    name := .word "b"
    isName := rfl
    value := [⟨.number, "3"⟩]
    isExpression := exists_spells_number VisualBasic.castsInBrackets "3"
    isOnLine := by decide
    isOther := by decide
    clause := []
    isClause := by decide }]
  terminator := .punct ":"
  isTerminator := .inr rfl

/-- A constant with the name of the first one in lower case. -/
def lowerCaseConstant : VisualBasic.ConstantDeclaration where
  before := []
  isOther := by decide
  word := .word "const"
  isConst_word := by decide
  first := {
    name := .word "a"
    isName := rfl
    value := [⟨.number, "4"⟩]
    isExpression := exists_spells_number VisualBasic.castsInBrackets "4"
    isOnLine := by decide
    isOther := by decide
    clause := []
    isClause := by decide }
  more := []
  terminator := ⟨.newline, "\n"⟩
  isTerminator := .inl rfl

def basicConstants : List Language.visualBasic.ConstantDeclaration :=
  [typedConstant, lowerCaseConstant]

def basicConstantSource : String :=
  "Const A As X(Of B, C) = CType(2, D.E), b = 3 : const a = 4\n"

theorem constants_of_declarations_repeated :
    (read .csharp "a.cs" csharpConstantSource).DeclaresConstants csharpConstants [.punct "\x7d"] ∧
      (read .csharp "a.cs" csharpConstantSource).constants.get? "a" = some castDifference ∧
      (read .csharp "a.cs" csharpConstantSource).constants.length = 2 ∧
      (read .visualBasic "a.vb" basicConstantSource).DeclaresConstants basicConstants [] ∧
      (read .visualBasic "a.vb" basicConstantSource).constants.get? "a" =
        some (conversionOf "CType") ∧
      (read .visualBasic "a.vb" basicConstantSource).constants.length = 2 := by
  have hcsharp : (read .csharp "a.cs" csharpConstantSource).DeclaresConstants csharpConstants
      [.punct "\x7d"] := ⟨by decide +kernel, by decide⟩
  have hbasic : (read .visualBasic "a.vb" basicConstantSource).DeclaresConstants basicConstants
      [] := ⟨by decide +kernel, by decide⟩
  have htypes : ∀ d ∈ [twoConstants, repeatedConstant], d.IsTypeRead := by decide +kernel
  obtain ⟨hget, hlength⟩ := constants_of_declarations hcsharp htypes
  obtain ⟨hbasicGet, hbasicLength⟩ := constants_of_declarations hbasic fun _ _ => trivial
  refine ⟨hcsharp, (hget "a").trans ?_, hlength.trans ?_, hbasic, (hbasicGet "A").trans ?_,
    hbasicLength.trans ?_⟩
  · rfl
  · rfl
  · rfl
  · rfl

/-- A constant with the type of nullable arrays, defined by the name of another one. -/
def nullableConstant : CSharp.ConstantDeclaration where
  before := []
  type := [.word "A", .punct "[", .punct "]", .punct "?"]
  isOther := by decide
  first := ⟨.word "N", rfl, [.word "B"], ⟨_, .ofProduct (.ofOperand (.ofPrimary rfl
    (.constant rfl rfl)))⟩, by decide, by decide⟩
  more := []

def nullableConstants : List Language.csharp.ConstantDeclaration := [nullableConstant]

/-- A constant with the type of nullable arrays is missed. -/
theorem not_forall_constants_of_derives :
    ¬∀ (path source : String) (ds : List Language.csharp.ConstantDeclaration)
        (rest : List Lexeme), (read .csharp path source).DeclaresConstants ds rest →
      (∀ d : CSharp.ConstantDeclaration, d ∈ ds → CSharp.Phrase.type.Derives d.type) →
      (∀ name, (read .csharp path source).constants.get? name =
          ((ds.flatMap CSharp.ConstantDeclaration.entries).find?
            fun p => p.1 == name).map Prod.snd) ∧
        (read .csharp path source).constants.length =
          ((ds.flatMap CSharp.ConstantDeclaration.entries).map Prod.fst).dedup.length := by
  intro hclaim
  have hderives : CSharp.Phrase.type.Derives nullableConstant.type :=
    .nullableArray (.array (.element (.name (.part (.word rfl rfl)))) 1)
  have hdeclares : (read .csharp "a.cs" "const A[]? N = B;").DeclaresConstants
      nullableConstants [] := ⟨by decide +kernel, by decide⟩
  have hmissed : (read .csharp "a.cs" "const A[]? N = B;").constants.get? "N" = none := by
    decide +kernel
  have hget := (hclaim _ _ _ _ hdeclares fun d hd => List.mem_singleton.1 hd ▸ hderives).1 "N"
  rw [hmissed] at hget
  cases hget

end Example

end Document

end ZeroAlloc

import ZeroAlloc.Proofs.CSharp.Imports
import ZeroAlloc.Proofs.Document.Attributes
import ZeroAlloc.Proofs.VisualBasic.Imports
import ZeroAlloc.Replacement
set_option autoImplicit false

/-! # Imports of a file

A file that starts with directives and goes on without any imports what they name, in their order
(`Document.imports_of_directives`); so the factory has its short name there if one of them imports
its namespace under no other name. In Visual Basic, what a statement names on a new line is missed
(`Document.not_forall_imports_statements`). -/

namespace ZeroAlloc

namespace Language

/-- The directives that import in the language. -/
def ImportDirective : Language → Type
  | csharp => CSharp.UsingDirective
  | visualBasic => VisualBasic.ImportStatement

/-- The lexemes of a directive. -/
def importRow : (language : Language) → language.ImportDirective → List Lexeme
  | csharp => CSharp.UsingDirective.row
  | visualBasic => VisualBasic.ImportStatement.row

/-- What directives at the start of a file import. -/
def directiveImports : (language : Language) → List language.ImportDirective → List Import
  | csharp => CSharp.UsingDirective.importsAt 0
  | visualBasic => VisualBasic.ImportStatement.importsAt VisualBasic.ImportStatement.onFirstLine 0

/-- The row goes on behind the directives, and imports nothing more. -/
def FollowsImports :
    (language : Language) → List language.ImportDirective → List Lexeme → Prop
  | csharp, _, rest => CSharp.ImportsNothing rest
  | visualBasic, ds, rest =>
    VisualBasic.Separated ds.tail ∧ VisualBasic.EndsStatement rest ∧
      VisualBasic.ImportsNothing rest

theorem imports_directives {language : Language} (ds : List language.ImportDirective)
    {rest : List Lexeme} (h : language.FollowsImports ds rest) :
    language.imports (ds.flatMap language.importRow ++ rest) = language.directiveImports ds := by
  cases language with
  | csharp => exact CSharp.imports_directives ds h
  | visualBasic =>
    obtain ⟨hseparated, hrest, hnothing⟩ := h
    exact VisualBasic.imports_statements ds hseparated hrest hnothing

end Language

namespace Document

/-- The document starts with the directives and imports nothing behind them. -/
structure StartsWithImports (doc : Document) {language : Language}
    (ds : List language.ImportDirective) (rest : List Lexeme) : Prop where
  lexemes_eq : lexemes doc.tokens.toList = ds.flatMap language.importRow ++ rest
  follows : language.FollowsImports ds rest

variable {language : Language} {path source : String}

/-- The imports of a file are those of the directives at its start, in order, and the factory has
its short name exactly if one of them imports its namespace under no other name. -/
theorem imports_of_directives {ds : List language.ImportDirective} {rest : List Lexeme}
    (h : (read language path source).StartsWithImports ds rest) :
    (read language path source).imports = language.directiveImports ds ∧
      ∀ factory, (read language path source).usesShortForm factory = true ↔
        ∃ i ∈ language.directiveImports ds, i.aliasName = none ∧
          language.namesEqual i.path factory.namespaceName = true := by
  have himports : (read language path source).imports = language.directiveImports ds := by
    rw [← Language.imports_directives ds h.follows, ← h.lexemes_eq]
    rfl
  refine ⟨himports, fun factory => ?_⟩
  rw [usesShortForm, importsNamespace, himports]
  simp [read]

/-! ## Examples of both languages -/

/-- The name of the words with the given texts. -/
def dottedName {isPart : Lexeme → Bool} (first : String) (more : List String)
    (h : ∀ l ∈ Lexeme.word first :: more.map .word, isPart l = true) : DottedName isPart :=
  ⟨.word first, more.map .word, h⟩

/-- A directive of each kind, with and without marks. -/
def usingDirectives : List Language.csharp.ImportDirective :=
  [⟨true, .plain, false, dottedName "A" ["B"] (by decide)⟩,
    ⟨false, .static, true, dottedName "C" [] (by decide)⟩,
    ⟨false, .renamed (.word "D") (by decide), true, dottedName "System" [] (by decide)⟩,
    ⟨false, .plain, false, dottedName "System" [] (by decide)⟩]

def usingSource : String :=
  "global using A.B; using static global::C; using D = global::System; using System;\n" ++
    "enum E \x7b \x7d"

/-- The clause that imports a namespace under its own name. -/
def plainClause (name : DottedName VisualBasic.isNamespaceWord)
    (h : VisualBasic.isKeyword name.first "global" = false) : VisualBasic.ImportClause :=
  .named ⟨none, nofun, none, nofun, name, fun _ => h⟩

/-- The clause that imports a namespace behind the word `Global`, maybe under another name. -/
def rootedClause (alias? : Option Lexeme)
    (h : ∀ l ∈ alias?, VisualBasic.isNamespaceWord l = true)
    (name : DottedName VisualBasic.isNamespaceWord) : VisualBasic.ImportClause :=
  .named ⟨alias?, h, some (.word "Global"), by decide, name, nofun⟩

/-- A statement with clauses of each kind and one on a new line. -/
def mixedStatement : VisualBasic.ImportStatement where
  breaks := []
  isBreak := nofun
  word := .word "Imports"
  isImports := by decide
  first := .xml (lexemesOf .visualBasic "xmlns=\"u\"") (by decide +kernel)
  more :=
    [⟨[], nofun, rootedClause (some (.word "A")) (by decide)
        (dottedName "System" ["B"] (by decide))⟩,
      ⟨lexemesOf .visualBasic "\n", by decide +kernel,
        plainClause (dottedName "C" [] (by decide)) (by decide)⟩]

/-- A statement behind another one on its line. -/
def secondStatement : VisualBasic.ImportStatement where
  breaks := [.punct ":"]
  isBreak := by decide
  word := .word "imports"
  isImports := by decide
  first := rootedClause none nofun (dottedName "SYSTEM" [] (by decide))
  more := []

def importStatements : List Language.visualBasic.ImportDirective :=
  [mixedStatement, secondStatement]

def importsSource : String :=
  "Imports <xmlns=\"u\">, A = Global.System.B,\n C : imports Global.SYSTEM\nClass E"

theorem imports_of_directives_both :
    (read .csharp "a.cs" usingSource).StartsWithImports usingDirectives
        (lexemesOf .csharp "enum E \x7b \x7d") ∧
      (read .csharp "a.cs" usingSource).imports.map (fun i => (i.aliasName, i.path)) =
        [(none, "A.B"), (some "D", "System"), (none, "System")] ∧
      (read .csharp "a.cs" usingSource).usesShortForm .standard = true ∧
      (read .visualBasic "a.vb" importsSource).StartsWithImports importStatements
        (lexemesOf .visualBasic "\nClass E") ∧
      (read .visualBasic "a.vb" importsSource).imports.map (fun i => (i.aliasName, i.path)) =
        [(some "A", "System.B"), (none, "SYSTEM")] ∧
      (read .visualBasic "a.vb" importsSource).usesShortForm .standard = true := by
  have hcsharp : (read .csharp "a.cs" usingSource).StartsWithImports usingDirectives
      (lexemesOf .csharp "enum E \x7b \x7d") :=
    ⟨by decide +kernel, CSharp.importsNothing_of_not_mem (by decide +kernel)⟩
  have hvisualBasic : (read .visualBasic "a.vb" importsSource).StartsWithImports
      importStatements (lexemesOf .visualBasic "\nClass E") :=
    ⟨by decide +kernel, (by decide : VisualBasic.Separated [secondStatement]), by decide +kernel,
      VisualBasic.importsNothing_of_forall (by decide +kernel)⟩
  obtain ⟨husings, hshort⟩ := imports_of_directives hcsharp
  obtain ⟨hstatements, hshort'⟩ := imports_of_directives hvisualBasic
  refine ⟨hcsharp, ?_, (hshort _).2 (by decide +kernel), hvisualBasic, ?_,
    (hshort' _).2 (by decide +kernel)⟩
  · rw [husings]
    decide +kernel
  · rw [hstatements]
    decide +kernel

/-- A statement whose second clause is on a new line. -/
def continuedStatement : VisualBasic.ImportStatement where
  breaks := []
  isBreak := nofun
  word := .word "Imports"
  isImports := by decide
  first := plainClause (dottedName "System" ["Text"] (by decide)) (by decide)
  more := [⟨lexemesOf .visualBasic "\n", by decide +kernel,
    plainClause (dottedName "System" [] (by decide)) (by decide)⟩]

def continuedStatements : List Language.visualBasic.ImportDirective := [continuedStatement]

def continuedSource : String := "Imports System.Text,\n  System\nClass C"

/-- What a statement names on a new line is missed. -/
theorem not_forall_imports_statements :
    ¬∀ (path source : String) (ds : List Language.visualBasic.ImportDirective)
        (rest : List Lexeme),
      (read .visualBasic path source).StartsWithImports ds rest →
      (read .visualBasic path source).imports =
          VisualBasic.ImportStatement.importsAt (·.more) 0 ds ∧
        ∀ factory, (read .visualBasic path source).usesShortForm factory = true ↔
          ∃ i ∈ VisualBasic.ImportStatement.importsAt (·.more) 0 ds, i.aliasName = none ∧
            Text.equalIgnoringCase i.path factory.namespaceName = true := by
  intro hclaim
  have hstarts : (read .visualBasic "a.vb" continuedSource).StartsWithImports
      continuedStatements (lexemesOf .visualBasic "\nClass C") :=
    ⟨by decide +kernel, (nofun : VisualBasic.Separated []), by decide +kernel,
      VisualBasic.importsNothing_of_forall (by decide +kernel)⟩
  have hmissed : (read .visualBasic "a.vb" continuedSource).usesShortForm .standard = false := by
    decide +kernel
  have hshort := (hclaim _ _ _ _ hstarts).2 .standard |>.2 (by decide +kernel)
  rw [hmissed] at hshort
  cases hshort

end Document

end ZeroAlloc

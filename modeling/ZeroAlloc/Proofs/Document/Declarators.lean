import ZeroAlloc.Proofs.CSharp.Declarators
import ZeroAlloc.Proofs.Document.Attributes
set_option autoImplicit false

/-! # Lists of declared arrays

A C# declaration of arrays has a site for each list of elements that it gives to a name, up to the
first name with an expression of another kind (`Document.sitesAt_of_declaration`). The lists behind
that name are missed (`Document.not_forall_sitesAt_declarators`), and so are all lists of a
declaration that follows the colon of a label (`Document.sitesAt_behind_label`). -/

namespace ZeroAlloc.Document

open CSharp (ArrayDeclaration Declarator)

/-- The sites of the document that start where one of the given ones does. -/
def sitesAt (doc : Document) (sites : List Site) : List Site :=
  doc.sites.filter fun s => sites.any (·.first == s.first)

/-- The sites, marked if they lie in the attribute sections of the document. -/
def marked (doc : Document) (sites : List Site) : List Site :=
  sites.map (Site.markAttribute (doc.language.attributeSections (lexemes doc.tokens.toList)))

/-- Behind the lexemes `before`, the document declares arrays. -/
def Declares (doc : Document) (d : ArrayDeclaration) (before behind : List Lexeme) : Prop :=
  lexemes doc.tokens.toList = before ++ (d.row ++ behind)

instance (doc : Document) (d : ArrayDeclaration) (before behind : List Lexeme) :
    Decidable (doc.Declares d before behind) :=
  inferInstanceAs (Decidable (_ = _))

/-- A label ends behind the lexemes: with a colon, and not with two. -/
def EndsLabel (before : List Lexeme) : Prop :=
  startsWithPunct ":" before.reverse = true ∧ startsWithPunct ":" before.reverse.tail = false

instance (before : List Lexeme) : Decidable (EndsLabel before) :=
  inferInstanceAs (Decidable (_ ∧ _))

variable {path source : String} {d : ArrayDeclaration} {before behind : List Lexeme}

/-- A declaration of arrays has exactly one site for each list that it gives to a name in front of
the first name with an expression of another kind, in order and with the type of the declaration. -/
theorem sitesAt_of_declaration (h : (read .csharp path source).Declares d before behind)
    (hbefore : startsWithText [".", "new", ":"] before.reverse = false) :
    (read .csharp path source).sitesAt
        (d.listSites before.length (CSharp.beforeComputed d.declarators)) =
      (read .csharp path source).marked
        (d.listSites before.length (CSharp.beforeComputed d.declarators)) :=
  ArrayDeclaration.filter_sites h hbefore

/-- A declaration of arrays of integers. -/
def declarationOfInts (declarators : List Declarator) (hne : declarators ≠ []) :
    ArrayDeclaration where
  type := lexemesOf .csharp "int[]"
  ref := ⟨lexemesOf .csharp "int", false, [⟨[none]⟩]⟩
  isType := by decide +kernel
  allocated := ⟨[none]⟩
  inner := []
  levels := rfl
  unsized := by decide
  isNullable := false
  declarators
  declarators_ne_nil := hne

/-- The name with nothing. -/
def bareName (name : String) : Declarator := ⟨⟨.ident, name⟩, rfl, .nothing⟩

/-- The name with an empty list. -/
def emptyList (name : String) : Declarator :=
  ⟨⟨.ident, name⟩, rfl, .list .braces [] (by decide) .nil⟩

/-- The name with a call, which passes two arguments. -/
def callResult (name : String) : Declarator :=
  ⟨⟨.ident, name⟩, rfl,
    .expression (lexemesOf .csharp "F(1, 2)") (by decide +kernel) (by decide +kernel)
      (by decide +kernel)⟩

/-- A field for each kind of initial value, and one more list at the end. -/
def fields : ArrayDeclaration :=
  declarationOfInts [emptyList "a", bareName "b", emptyList "c", callResult "d", emptyList "e"]
    (by simp)

def fieldsSource : String :=
  "class C \x7b int[] a = \x7b \x7d, b, c = \x7b \x7d, d = F(1, 2), e = \x7b \x7d; \x7d"

theorem sitesAt_of_declaration_fields :
    ∃ before behind, (read .csharp "a.cs" fieldsSource).Declares fields before behind ∧
      startsWithText [".", "new", ":"] before.reverse = false ∧
      (fields.listSites before.length (CSharp.beforeComputed fields.declarators)).length = 2 ∧
      (read .csharp "a.cs" fieldsSource).sitesAt
          (fields.listSites before.length (CSharp.beforeComputed fields.declarators)) =
        (read .csharp "a.cs" fieldsSource).marked
          (fields.listSites before.length (CSharp.beforeComputed fields.declarators)) := by
  have hdeclares : (read .csharp "a.cs" fieldsSource).Declares fields
      (lexemesOf .csharp "class C \x7b") (lexemesOf .csharp "\x7d") := by
    decide +kernel
  have hbefore : startsWithText [".", "new", ":"] (lexemesOf .csharp "class C \x7b").reverse =
      false := by
    decide +kernel
  exact ⟨_, _, hdeclares, hbefore, by decide +kernel, sitesAt_of_declaration hdeclares hbefore⟩

/-- A field with an expression of another kind, and one with a list behind it. -/
def fieldBehindNull : ArrayDeclaration :=
  declarationOfInts
    [⟨⟨.ident, "a"⟩, rfl, .expression (lexemesOf .csharp "null") (by decide +kernel)
      (by decide +kernel) (by decide +kernel)⟩, emptyList "b"]
    (by simp)

def fieldBehindNullSource : String := "class C \x7b int[] a = null, b = \x7b \x7d; \x7d"

/-- The list behind an expression of another kind is missed. -/
theorem not_forall_sitesAt_declarators :
    ¬∀ (path source : String) (d : ArrayDeclaration) (before behind : List Lexeme),
      (read .csharp path source).Declares d before behind →
      startsWithText [";", "\x7b", "\x7d"] before.reverse = true →
      (read .csharp path source).sitesAt (d.listSites before.length d.declarators) =
        (read .csharp path source).marked (d.listSites before.length d.declarators) := by
  intro hclaim
  have hdeclares : (read .csharp "a.cs" fieldBehindNullSource).Declares fieldBehindNull
      (lexemesOf .csharp "class C \x7b") (lexemesOf .csharp "\x7d") := by
    decide +kernel
  have hmissed : (read .csharp "a.cs" fieldBehindNullSource).sitesAt
        (fieldBehindNull.listSites (lexemesOf .csharp "class C \x7b").length
          fieldBehindNull.declarators) ≠
      (read .csharp "a.cs" fieldBehindNullSource).marked
        (fieldBehindNull.listSites (lexemesOf .csharp "class C \x7b").length
          fieldBehindNull.declarators) := by
    decide +kernel
  exact hmissed (hclaim _ _ _ _ _ hdeclares (by decide +kernel))

/-! ## Labels -/

/-- A declaration of arrays that follows a semicolon has its sites, and the same declaration has
none where it follows a label. -/
theorem sitesAt_behind_label {path' source' : String} {before' behind' : List Lexeme}
    (h : (read .csharp path source).Declares d before behind)
    (hbefore : startsWithPunct ";" before.reverse = true)
    (h' : (read .csharp path' source').Declares d before' behind') (hlabel : EndsLabel before') :
    (read .csharp path source).sitesAt
        (d.listSites before.length (CSharp.beforeComputed d.declarators)) =
      (read .csharp path source).marked
        (d.listSites before.length (CSharp.beforeComputed d.declarators)) ∧
    (read .csharp path' source').sitesAt
        (d.listSites before'.length (CSharp.beforeComputed d.declarators)) = [] := by
  refine ⟨ArrayDeclaration.filter_sites h ?_,
    ArrayDeclaration.filter_sites_eq_nil h' hlabel.1 hlabel.2⟩
  rw [startsWithText_eq_contains hbefore]
  decide

/-- A local variable with an empty list. -/
def localList : ArrayDeclaration :=
  declarationOfInts [emptyList "a"] (by simp)

def plainSource : String := "class C \x7b void M() \x7b N(); int[] a = \x7b \x7d; \x7d \x7d"

def labelledSource : String := "class C \x7b void M() \x7b L: int[] a = \x7b \x7d; \x7d \x7d"

theorem sitesAt_behind_label_localList :
    ∃ before behind before' behind',
      (read .csharp "a.cs" plainSource).Declares localList before behind ∧
      startsWithPunct ";" before.reverse = true ∧
      (read .csharp "b.cs" labelledSource).Declares localList before' behind' ∧
      EndsLabel before' ∧
      (localList.listSites before.length (CSharp.beforeComputed localList.declarators)).length =
        1 ∧
      (read .csharp "a.cs" plainSource).sitesAt
          (localList.listSites before.length (CSharp.beforeComputed localList.declarators)) =
        (read .csharp "a.cs" plainSource).marked
          (localList.listSites before.length (CSharp.beforeComputed localList.declarators)) ∧
      (read .csharp "b.cs" labelledSource).sitesAt
          (localList.listSites before'.length (CSharp.beforeComputed localList.declarators)) =
        [] := by
  have hplain : (read .csharp "a.cs" plainSource).Declares localList
      (lexemesOf .csharp "class C \x7b void M() \x7b N();") (lexemesOf .csharp "\x7d \x7d") := by
    decide +kernel
  have hlabelled : (read .csharp "b.cs" labelledSource).Declares localList
      (lexemesOf .csharp "class C \x7b void M() \x7b L:") (lexemesOf .csharp "\x7d \x7d") := by
    decide +kernel
  have hsemicolon : startsWithPunct ";"
      (lexemesOf .csharp "class C \x7b void M() \x7b N();").reverse = true := by
    decide +kernel
  have hlabel : EndsLabel (lexemesOf .csharp "class C \x7b void M() \x7b L:") := by
    decide +kernel
  exact ⟨_, _, _, _, hplain, hsemicolon, hlabelled, hlabel, by decide +kernel,
    sitesAt_behind_label hplain hsemicolon hlabelled hlabel⟩

/-- A section of a switch that declares an array, behind the end of its label. -/
def sectionSource (ending : String) : String :=
  "class C \x7b void M(int x) \x7b switch (x) \x7b case 1" ++ ending ++
    " int[] a = \x7b \x7d; break; \x7d \x7d \x7d"

/-- Behind a label, the list that has a site behind a semicolon is missed. -/
theorem not_forall_sitesAt_behind_label :
    ¬∀ (path source source' : String) (d : ArrayDeclaration) (before behind : List Lexeme),
      (read .csharp path source).Declares d (before ++ [.punct ";"]) behind →
      (read .csharp path source').Declares d (before ++ [.punct ":"]) behind →
      EndsLabel (before ++ [.punct ":"]) →
      (read .csharp path source').sitesAt (d.listSites (before.length + 1) d.declarators) =
        (read .csharp path source).sitesAt (d.listSites (before.length + 1) d.declarators) := by
  intro hclaim
  have hplain : (read .csharp "a.cs" (sectionSource ";")).Declares localList
      (lexemesOf .csharp "class C \x7b void M(int x) \x7b switch (x) \x7b case 1" ++ [.punct ";"])
      (lexemesOf .csharp "break; \x7d \x7d \x7d") := by
    decide +kernel
  have hlabelled : (read .csharp "a.cs" (sectionSource ":")).Declares localList
      (lexemesOf .csharp "class C \x7b void M(int x) \x7b switch (x) \x7b case 1" ++ [.punct ":"])
      (lexemesOf .csharp "break; \x7d \x7d \x7d") := by
    decide +kernel
  have hmissed : (read .csharp "a.cs" (sectionSource ":")).sitesAt
        (localList.listSites ((lexemesOf .csharp
          "class C \x7b void M(int x) \x7b switch (x) \x7b case 1").length + 1)
          localList.declarators) ≠
      (read .csharp "a.cs" (sectionSource ";")).sitesAt
        (localList.listSites ((lexemesOf .csharp
          "class C \x7b void M(int x) \x7b switch (x) \x7b case 1").length + 1)
          localList.declarators) := by
    decide +kernel
  exact hmissed (hclaim _ _ _ _ _ _ hplain hlabelled (by decide +kernel))

end ZeroAlloc.Document

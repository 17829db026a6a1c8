import ZeroAlloc.Decision
import ZeroAlloc.Language
import ZeroAlloc.Proofs.CSharp.Attributes
import ZeroAlloc.Proofs.VisualBasic.Attributes
set_option autoImplicit false

/-! # Sites in attribute arguments

In either language, a site counts as an attribute argument just if it lies in an attribute section
(`Language.inAttribute_of_mem_sites`). An array creation in a section at the start of a declaration
is passed over (`Document.decision_of_declaresWith`), where the section is found. In Visual Basic a
section directly behind another one is not (`Document.not_forall_marksAttributes`). -/

namespace ZeroAlloc

namespace Language

/-- The attribute sections in the lexemes of a file. -/
def attributeSections : Language → List Lexeme → List (Nat × Nat)
  | csharp => CSharp.attributeSections [] 0 none
  | visualBasic => VisualBasic.attributeBlocks [] 0

/-- A site is marked just if it lies in an attribute section. -/
theorem inAttribute_of_mem_sites {language : Language} {ls : List Lexeme} {s : Site}
    (h : s ∈ language.sites ls) : s.inAttribute = s.liesWithin (language.attributeSections ls) := by
  cases language with
  | csharp => exact CSharp.inAttribute_of_mem_sites h
  | visualBasic => exact VisualBasic.inAttribute_of_mem_sites h

/-! ## Sections at the start of a declaration -/

/-- Whether the row is an attribute section with its brackets. -/
def isSection : Language → List Lexeme → Bool
  | csharp => CSharp.isSection
  | visualBasic => VisualBasic.isSection

/-- Whether a declaration or a parameter can start at a place and go on behind its attribute
sections with the row `behind`. -/
def startsDeclaration : Language → List Lexeme → List Lexeme → Bool
  | csharp => CSharp.startsDeclaration
  | visualBasic => VisualBasic.startsDeclaration

/-- Behind the lexemes `before` of the row, a declaration starts with the attribute sections, one
directly behind the other. -/
structure DeclaresWith (language : Language) (ls before : List Lexeme)
    (sections : List (List Lexeme)) (behind : List Lexeme) : Prop where
  row : ls = before ++ (sections.flatten ++ behind)
  isSection : ∀ attributes ∈ sections, language.isSection attributes = true
  starts : language.startsDeclaration before.reverse behind = true

/-- What the section needs of itself and of those before and behind it to be found. In C#, none
before it may hold a list that is taken for a section. In Visual Basic it must be the first one, and
on one line; in front of a parameter it must also be the last one. -/
def Sees (language : Language) (before : List Lexeme) (earlier : List (List Lexeme))
    (attributes : List Lexeme) (later : List (List Lexeme)) : Prop :=
  match language with
  | csharp => ∀ ls ∈ earlier, CSharp.holdsSection ls = false
  | visualBasic =>
    earlier = [] ∧ (later = [] ∨ VisualBasic.startsStatementAfter before.reverse = true) ∧
      ∀ l ∈ attributes, l.isNewline = false

theorem mem_attributeSections {language : Language} {ls before attributes behind : List Lexeme}
    {earlier later : List (List Lexeme)}
    (h : language.DeclaresWith ls before (earlier ++ attributes :: later) behind)
    (hsees : language.Sees before earlier attributes later) :
    ∃ stop, stop + 1 = before.length + earlier.flatten.length + attributes.length ∧
      (before.length + earlier.flatten.length, stop) ∈ language.attributeSections ls := by
  obtain ⟨rfl, hsections, hstart⟩ := h
  have hsection := hsections attributes (by simp)
  rw [List.flatten_append, List.flatten_cons, List.append_assoc, List.append_assoc]
  cases language with
  | csharp =>
    have hlater : ∀ ls ∈ later, CSharp.isSection ls = true :=
      fun ls hls => hsections ls (by simp [hls])
    exact CSharp.mem_attributeSections (fun ls hls => hsections ls (by simp [hls])) hsees hsection
      (CSharp.startsDeclaration_flatten hstart hlater)
  | visualBasic =>
    obtain ⟨rfl, hlater, hline⟩ := hsees
    refine VisualBasic.mem_attributeBlocks hsection hline ?_
    rcases hlater with rfl | hstatement
    · exact hstart
    · exact Bool.or_eq_true_iff.2 (.inl hstatement)

end Language

namespace Document

/-- Every site in an attribute section is marked, however many sections stand behind each other at
the start of a declaration. -/
def MarksAttributes (doc : Document) : Prop :=
  ∀ before earlier attributes later behind,
    doc.language.DeclaresWith (lexemes doc.tokens.toList) before (earlier ++ attributes :: later)
      behind →
    ∀ s ∈ doc.sites, before.length + earlier.flatten.length ≤ s.first →
      s.last < before.length + earlier.flatten.length + attributes.length → s.inAttribute = true

/-- A site in one of the attribute sections of a declaration is never flagged, if the section is
found. -/
theorem decision_of_declaresWith {language : Language} {path source : String}
    {before attributes behind : List Lexeme} {earlier later : List (List Lexeme)}
    (h : language.DeclaresWith (lexemes (read language path source).tokens.toList) before
      (earlier ++ attributes :: later) behind)
    (hsees : language.Sees before earlier attributes later) :
    ∀ s ∈ (read language path source).sites, before.length + earlier.flatten.length ≤ s.first →
      s.last < before.length + earlier.flatten.length + attributes.length →
      s.inAttribute = true ∧
        ∀ policy, s.decision language (read language path source).constants policy =
          .skip .attributeArgument := by
  intro s hs hfirst hlast
  obtain ⟨stop, hstop, hmem⟩ := Language.mem_attributeSections h hsees
  have hattribute : s.inAttribute = true := by
    rw [Language.inAttribute_of_mem_sites hs]
    exact Site.liesWithin_iff.2 ⟨_, stop, hmem, hfirst, by omega⟩
  refine ⟨hattribute, fun policy => ?_⟩
  rw [Site.decision, if_pos hattribute]

/-- The lexemes of a piece of source text. -/
def lexemesOf (language : Language) (text : String) : List Lexeme :=
  lexemes (Lexis.tokenize language.rules text)

/-- A class with two attribute sections, an allocation in the second one. -/
def twoSections : String := "[A] [B(new int[0])] class C \x7b \x7d"

theorem decision_of_declaresWith_twoSections :
    ∃ before earlier attributes later behind,
      Language.csharp.DeclaresWith (lexemes (read .csharp "a.cs" twoSections).tokens.toList) before
        (earlier ++ attributes :: later) behind ∧
      Language.csharp.Sees before earlier attributes later ∧
      (∃ s ∈ (read .csharp "a.cs" twoSections).sites,
        before.length + earlier.flatten.length ≤ s.first ∧
          s.last < before.length + earlier.flatten.length + attributes.length) ∧
      ∀ s ∈ (read .csharp "a.cs" twoSections).sites,
        before.length + earlier.flatten.length ≤ s.first →
        s.last < before.length + earlier.flatten.length + attributes.length →
        s.inAttribute = true ∧
          ∀ policy, s.decision .csharp (read .csharp "a.cs" twoSections).constants policy =
            .skip .attributeArgument := by
  have hdeclares : Language.csharp.DeclaresWith
      (lexemes (read .csharp "a.cs" twoSections).tokens.toList) []
      ([lexemesOf .csharp "[A]"] ++ lexemesOf .csharp "[B(new int[0])]" :: [])
      (lexemesOf .csharp "class C \x7b \x7d") :=
    ⟨by decide +kernel, by decide +kernel, by decide +kernel⟩
  have hsees : Language.csharp.Sees [] [lexemesOf .csharp "[A]"]
      (lexemesOf .csharp "[B(new int[0])]") [] := by
    change ∀ ls ∈ [lexemesOf .csharp "[A]"], CSharp.holdsSection ls = false
    decide +kernel
  exact ⟨_, _, _, _, _, hdeclares, hsees, by decide +kernel,
    decision_of_declaresWith hdeclares hsees⟩

/-- A class with two attribute blocks, an allocation in the second one. -/
def twoBlocks : String := "<A> <B(New Integer() \x7b \x7d)> Class C\nEnd Class"

/-- The allocation in the second block is not known to be in one. -/
theorem not_forall_marksAttributes : ¬ ∀ (language : Language) (path source : String),
    (read language path source).MarksAttributes := by
  intro h
  have hdeclares : Language.visualBasic.DeclaresWith
      (lexemes (read .visualBasic "a.vb" twoBlocks).tokens.toList) []
      ([lexemesOf .visualBasic "<A>"] ++
        lexemesOf .visualBasic "<B(New Integer() \x7b \x7d)>" :: [])
      (lexemesOf .visualBasic "Class C\nEnd Class") :=
    ⟨by decide +kernel, by decide +kernel, by decide +kernel⟩
  have hmarks := h .visualBasic "a.vb" twoBlocks _ _ _ _ _ hdeclares
  obtain ⟨s, hs, hfirst, hlast, hunmarked⟩ : ∃ s ∈ (read .visualBasic "a.vb" twoBlocks).sites,
      [lexemesOf .visualBasic "<A>"].flatten.length ≤ s.first ∧
      s.last < [lexemesOf .visualBasic "<A>"].flatten.length +
        (lexemesOf .visualBasic "<B(New Integer() \x7b \x7d)>").length ∧
      s.inAttribute = false := by decide +kernel
  have hmarked := hmarks s hs
  rw [List.length_nil, Nat.zero_add, hunmarked] at hmarked
  cases hmarked hfirst hlast

end Document

end ZeroAlloc

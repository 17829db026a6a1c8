import ZeroAlloc.Proofs.Decision.Evidence
import ZeroAlloc.Proofs.Language.Constants
import ZeroAlloc.Proofs.SizeExpr.Relocation
set_option autoImplicit false

/-! # Constants with several declarations

A file may declare a constant in several classes, and the table keeps the first declaration. So a
site that is flagged for a length of zero has that length under each choice of declarations that
agrees with the table on what the size mentions. Under another choice the length may differ. -/

namespace ZeroAlloc

open Constants (IsChoiceOf)

/-- The declarations of constants in a document, in order. -/
def Document.constantDeclarations (doc : Document) : List (String × List Lexeme) :=
  doc.language.constantDeclarations (lexemes doc.tokens.toList)

theorem Document.constants_read (language : Language) (path source : String) :
    (read language path source).constants =
      .ofDeclarations (read language path source).constantDeclarations :=
  language.constants_eq_ofDeclarations _

namespace Site

variable {s : Site} {policy : Policy}

/-- The site is flagged because its length is the constant zero. -/
structure IsFlaggedZero (s : Site) (doc : Document) (policy : Policy) : Prop where
  flagged : s.decision doc.language doc.constants policy = .flag
  zero : s.evidence doc.language doc.constants = .constantZero

/-- A site that is flagged for a length of zero has this length under every choice of declarations
that takes the first one of each name that the size mentions. Where all declarations of these names
are alike, that is every choice. -/
theorem IsFlaggedZero.length?_eq_zero {language : Language} {path source : String}
    (h : s.IsFlaggedZero (Document.read language path source) policy) :
    let doc := Document.read language path source
    ∃ size, s.allocated.sizes.head? = some (some size) ∧
      (∀ choice, IsChoiceOf doc.constantDeclarations choice →
        (∀ name, Mentions language.dialect doc.constants size name →
          choice.get? name = doc.constantDeclarations.lookup name) →
        language.length? choice size = some 0) ∧
      ((∀ name definition other, Mentions language.dialect doc.constants size name →
          (name, definition) ∈ doc.constantDeclarations →
          (name, other) ∈ doc.constantDeclarations → definition = other) →
        ∀ choice, IsChoiceOf doc.constantDeclarations choice →
          language.length? choice size = some 0) := by
  intro doc
  obtain ⟨size, hsize, hzero⟩ := exists_size_of_evidence h.zero
  have hfirst : ∀ choice : Constants,
      (∀ name, Mentions language.dialect doc.constants size name →
        choice.get? name = doc.constantDeclarations.lookup name) →
      language.length? choice size = some 0 := by
    intro choice hchoice
    rw [← hzero]
    refine Language.length?_congr fun name hname => ?_
    rw [hchoice name hname, Document.constants_read, Constants.get?_ofDeclarations]
  refine ⟨size, hsize, fun choice _ => hfirst choice, fun halike choice hchoice => ?_⟩
  exact hfirst choice fun name hname =>
    hchoice.get?_eq_lookup fun hdefinition hother => halike name _ _ hname hdefinition hother

end Site

/-! ## A constant of another class -/

/-- The name of a constant folds to the literal that defines it. -/
theorem CSharp.fold_name {constants : Constants} {name number : Lexeme} {n : Int}
    (hname : name.isIdent = true) (hnumber : number.kind = .number)
    (hget : constants.get? name.text = some [number]) (hliteral : literal? number.text = some n) :
    fold dialect constants [name] = some n := by
  have hdefined : SizeExpr.Spells dialect .sum [number] (.literal number.text) [] :=
    .ofProduct (.ofOperand (.number castsInBrackets hnumber []))
  exact (fold_eq_some castsInBrackets literalsRepresented).2
    ⟨.constant name.text, .name castsInBrackets hname, .constant (by decide) hget hdefined
      (.literal hliteral (literalsRepresented hliteral))⟩

/-- Two classes declare a constant of one name, and the second one uses it. -/
def shadowedConstant : String :=
  "class A \x7b const int N = 0; \x7d class B \x7b const int N = 5; int[] a = new int[N]; \x7d"

namespace Site

/-- The use takes the constant of the first class. -/
theorem exists_isFlaggedZero_shadowedConstant :
    let doc := Document.read .csharp "" shadowedConstant
    ∃ s ∈ doc.sites, s.IsFlaggedZero doc ⟨true, true, .flag⟩ ∧
      s.allocated.sizes.head? = some (some [⟨.ident, "N"⟩]) := by
  intro doc
  have hconstants : doc.constants = [("N", [⟨.number, "0"⟩])] := by decide +kernel
  obtain ⟨s, hs⟩ : ∃ s, doc.sites = [s] := List.length_eq_one_iff.1 (by decide +kernel)
  have hsite : doc.sites.all (fun s => s.allocated = ⟨[some [⟨.ident, "N"⟩]]⟩ && !s.inAttribute &&
      s.origin = .explicit && !s.malformed && !s.element.isPointer && s.element.resolved) := by
    decide +kernel
  simp only [hs, List.all_cons, List.all_nil, Bool.and_true, Bool.and_eq_true, decide_eq_true_eq,
    Bool.not_eq_true'] at hsite
  obtain ⟨⟨⟨⟨⟨hallocated, hattribute⟩, horigin⟩, hmalformed⟩, hpointer⟩, hresolved⟩ := hsite
  have hfold : fold CSharp.dialect doc.constants [⟨.ident, "N"⟩] = some 0 :=
    CSharp.fold_name rfl rfl (by rw [hconstants]; rfl) (by decide +kernel)
  have hlength : Language.csharp.length? doc.constants [⟨.ident, "N"⟩] = some 0 := by
    rw [Language.length?, CSharp.length?, hfold]
    rfl
  have hzero : s.evidence .csharp doc.constants = .constantZero := by
    simp [evidence, hallocated, hlength]
  refine ⟨s, by simp [hs], ⟨?_, hzero⟩, by rw [hallocated]; rfl⟩
  change s.decision .csharp doc.constants _ = _
  simp [decision, hattribute, horigin, Origin.isCompilerGenerated, hmalformed, hallocated,
    ArrayLevel.rank, hpointer, hzero, hresolved]

/-- A size need not be zero under the choices that take another declaration of a name in it. -/
theorem exists_choice_ne_zero :
    ¬∀ (language : Language) (path source : String) (policy : Policy) (s : Site),
      let doc := Document.read language path source
      ¬(doc.constantDeclarations.map Prod.fst).Nodup → s ∈ doc.sites →
        s.IsFlaggedZero doc policy →
        ∃ size, s.allocated.sizes.head? = some (some size) ∧
          ∀ choice, IsChoiceOf doc.constantDeclarations choice →
            language.length? choice size = some 0 := by
  intro hclaim
  obtain ⟨s, hs, hflagged, hsize⟩ := exists_isFlaggedZero_shadowedConstant
  have hdeclarations :
      (Document.read .csharp "" shadowedConstant).constantDeclarations =
        [("N", [⟨.number, "0"⟩]), ("N", [⟨.number, "5"⟩])] := by decide +kernel
  obtain ⟨size, hsize', hchoice⟩ :=
    hclaim .csharp "" shadowedConstant _ s (by rw [hdeclarations]; decide) hs hflagged
  obtain rfl : size = [⟨.ident, "N"⟩] := by
    rw [hsize] at hsize'
    simpa using hsize'.symm
  have hother : IsChoiceOf (Document.read .csharp "" shadowedConstant).constantDeclarations
      [("N", [⟨.number, "5"⟩])] := by
    rw [hdeclarations]
    constructor
    · intro name definition h
      have hmem := Constants.mem_of_lookup h
      simp only [List.mem_singleton] at hmem
      simp [hmem]
    · intro name definition h
      simp only [List.mem_cons, Prod.mk.injEq, List.not_mem_nil, or_false] at h
      rcases h with ⟨rfl, _⟩ | ⟨rfl, _⟩ <;> rfl
  have hfold : fold CSharp.dialect [("N", [⟨.number, "5"⟩])] [⟨.ident, "N"⟩] = some 5 :=
    CSharp.fold_name rfl rfl rfl (by decide +kernel)
  have hzero := hchoice _ hother
  simp [Language.length?, CSharp.length?, hfold] at hzero

/-- The length is zero under the choice that the table makes. -/
theorem length?_eq_zero_shadowedConstant :
    let doc := Document.read .csharp "" shadowedConstant
    ∃ s ∈ doc.sites, s.IsFlaggedZero doc ⟨true, true, .flag⟩ ∧
      ∃ size, s.allocated.sizes.head? = some (some size) ∧
        IsChoiceOf doc.constantDeclarations doc.constants ∧
        Language.csharp.length? doc.constants size = some 0 := by
  intro doc
  obtain ⟨s, hs, hflagged, _⟩ := exists_isFlaggedZero_shadowedConstant
  obtain ⟨size, hsize, hfirst, _⟩ := IsFlaggedZero.length?_eq_zero hflagged
  have hchoice : IsChoiceOf doc.constantDeclarations doc.constants := by
    rw [Document.constants_read]
    exact Constants.isChoiceOf_ofDeclarations _
  refine ⟨s, hs, hflagged, size, hsize, hchoice, hfirst _ hchoice fun name _ => ?_⟩
  rw [Document.constants_read, Constants.get?_ofDeclarations]

end Site

end ZeroAlloc

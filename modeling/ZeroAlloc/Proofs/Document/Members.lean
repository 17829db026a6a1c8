import ZeroAlloc.Compilation
import ZeroAlloc.Proofs.CSharp.Enclosure
import ZeroAlloc.Proofs.VisualBasic.Enclosure
set_option autoImplicit false

/-! # Where the factory is declared

A file counts as declaring the factory if some place in it reads as the declaration of a method of
its name whose innermost type has the name of its type and whose namespaces together have the name
of its namespace. If what reads so is a declaration in a type that is not nested, that is the method
of the factory in its type (`declaresFactory_iff_hasFactoryNames`). Otherwise it need not be: the
types around the innermost one are left out of account (`not_forall_declaresMember`). -/

namespace ZeroAlloc

/-! ## Languages -/

/-- What a language makes of the places of a row. -/
def Language.headings : Language → Headings
  | csharp => CSharp.headings
  | visualBasic => VisualBasic.headings

/-- The methods are found by their innermost types. -/
theorem Language.genericMethods_eq (language : Language) (ls : List Lexeme) :
    language.genericMethods ls =
      (language.headings.members ls).filterMap Member.genericMethod? := by
  cases language with
  | csharp => exact CSharp.genericMethods_eq ls
  | visualBasic => exact VisualBasic.genericMethods_eq ls

/-- The method has the name of the factory and is declared in the body of a type with the full name
of the factory's type: all namespaces around it together have the name of the namespace, and the
type with all types around it has the name of the type. -/
structure Language.IsFactoryMember (language : Language) (factory : Factory) (m : Member) :
    Prop where
  declared : m.isDeclared = true
  direct : m.isDirect = true
  namespaceName : language.namesEqual m.namespaceName factory.namespaceName = true
  typePath : language.namesEqual m.typePath factory.typeName = true
  name : language.namesEqual m.name factory.method = true

/-- The method has the name of the factory, its innermost type that of the type, and the namespaces
around it together that of the namespace. -/
structure Language.HasFactoryNames (language : Language) (factory : Factory) (m : Member) :
    Prop where
  namespaceName : language.namesEqual m.namespaceName factory.namespaceName = true
  innermostType : ∃ typeName, m.innermostType? = some typeName ∧
    language.namesEqual typeName factory.typeName = true
  name : language.namesEqual m.name factory.method = true

/-! ## Types that are not nested -/

/-- The method is declared in the body of a type that is in no other type. -/
structure Member.IsUnnested (m : Member) : Prop where
  declared : m.isDeclared = true
  direct : m.isDirect = true
  outer : ∀ e ∈ m.around.tail, e.typeName? = none

instance (m : Member) : Decidable m.IsUnnested :=
  decidable_of_iff (m.isDeclared = true ∧ m.isDirect = true ∧
    ∀ e ∈ m.around.tail, e.typeName? = none)
    ⟨fun ⟨h, h', h''⟩ => ⟨h, h', h''⟩, fun ⟨h, h', h''⟩ => ⟨h, h', h''⟩⟩

/-- The innermost type of such a method is all there is to the name of its type. -/
theorem Member.IsUnnested.innermostType? {m : Member} (h : m.IsUnnested) :
    m.innermostType? = some m.typePath := by
  obtain ⟨around, name, isDeclared⟩ := m
  obtain ⟨-, hdirect, houter⟩ := h
  cases around with
  | nil => cases hdirect
  | cons e outer =>
    cases e with
    | namespaceBody _ => cases hdirect
    | block => cases hdirect
    | typeBody typeName =>
      have hnone : outer.reverse.filterMap Enclosure.typeName? = [] :=
        List.filterMap_eq_nil_iff.2 fun e he => houter e (List.mem_reverse.1 he)
      rw [Member.innermostType?, Member.typePath, List.reverse_cons, List.filterMap_append, hnone]
      rfl

theorem Language.isFactoryMember_iff {language : Language} {factory : Factory} {m : Member}
    (h : m.IsUnnested) :
    language.IsFactoryMember factory m ↔ language.HasFactoryNames factory m := by
  constructor
  · rintro ⟨-, -, hnamespace, htype, hname⟩
    exact ⟨hnamespace, ⟨m.typePath, h.innermostType?, htype⟩, hname⟩
  · rintro ⟨hnamespace, ⟨typeName, htypeName, htype⟩, hname⟩
    rw [h.innermostType?, Option.some_inj] at htypeName
    rw [← htypeName] at htype
    exact ⟨h.declared, h.direct, hnamespace, htype, hname⟩

/-! ## Documents -/

namespace Document

/-- In a properly nested file every scope ends, and no other. -/
def HasNestedScopes (doc : Document) : Prop :=
  doc.language.headings.IsNested (lexemes doc.tokens.toList)

instance (doc : Document) : Decidable doc.HasNestedScopes :=
  inferInstanceAs (Decidable (Headings.IsNested _ _))

/-- At some place the file reads as the declaration of a generic method, in the scopes of the
place. -/
def Reads (doc : Document) (m : Member) : Prop :=
  doc.language.headings.Reads (lexemes doc.tokens.toList) m

/-- The method of the factory is declared in its type. -/
def DeclaresMember (doc : Document) (factory : Factory) : Prop :=
  ∃ m, doc.Reads m ∧ doc.language.IsFactoryMember factory m

section

variable {language : Language} {path source : String}
  (hnested : (read language path source).HasNestedScopes)
include hnested

theorem reads_iff {m : Member} : (read language path source).Reads m ↔
    m ∈ language.headings.members (lexemes (read language path source).tokens.toList) :=
  (language.headings.mem_members_iff hnested).symm

theorem declaresFactory_iff (factory : Factory) :
    (read language path source).declaresFactory factory = true ↔
      ∃ m, (read language path source).Reads m ∧ language.HasFactoryNames factory m := by
  have hmethods : (read language path source).genericMethods =
      (language.headings.members (lexemes (read language path source).tokens.toList)).filterMap
        Member.genericMethod? := language.genericMethods_eq _
  simp only [declaresFactory, hmethods, List.any_eq_true, List.mem_filterMap,
    ← reads_iff hnested, Bool.and_eq_true]
  constructor
  · rintro ⟨found, ⟨m, hm, hfound⟩, ⟨hnamespace, htype⟩, hname⟩
    obtain ⟨typeName, htypeName, rfl⟩ := Option.map_eq_some_iff.1 hfound
    exact ⟨m, hm, hnamespace, ⟨typeName, htypeName, htype⟩, hname⟩
  · rintro ⟨m, hm, hnamespace, ⟨typeName, htypeName, htype⟩, hname⟩
    have hfound : m.genericMethod? = some ⟨m.namespaceName, typeName, m.name⟩ := by
      rw [Member.genericMethod?, htypeName]
      rfl
    exact ⟨_, ⟨m, hm, hfound⟩, ⟨hnamespace, htype⟩, hname⟩

/-- If whatever reads as a method of its name is declared in a type that is not nested, the factory
is declared in its type. -/
theorem declaresFactory_iff_of_unnested {factory : Factory}
    (hunnested : ∀ m, (read language path source).Reads m →
      language.namesEqual m.name factory.method = true → m.IsUnnested) :
    (read language path source).declaresFactory factory = true ↔
      (read language path source).DeclaresMember factory := by
  rw [declaresFactory_iff hnested]
  constructor
  · rintro ⟨m, hm, hnames⟩
    exact ⟨m, hm, (Language.isFactoryMember_iff (hunnested m hm hnames.name)).2 hnames⟩
  · rintro ⟨m, hm, hmember⟩
    exact ⟨m, hm, (Language.isFactoryMember_iff (hunnested m hm hmember.name)).1 hmember⟩

/-- A properly nested file counts as declaring the factory just if it reads at some place as the
declaration of a method with the names of the factory. If whatever reads as a method of its name is
declared in a type that is not nested, the file declares the method of the factory in its type, and
nothing else in it makes the factory available. -/
theorem declaresFactory_iff_hasFactoryNames (factory : Factory) :
    ((read language path source).declaresFactory factory = true ↔
      ∃ m, (read language path source).Reads m ∧ language.HasFactoryNames factory m) ∧
    ((∀ m, (read language path source).Reads m →
        language.namesEqual m.name factory.method = true → m.IsUnnested) →
      ((read language path source).declaresFactory factory = true ↔
        (read language path source).DeclaresMember factory) ∧
      ∀ c : Compilation, c.config.factory = factory → read language path source ∈ c.files →
        (∀ other ∈ c.files, other.declaresFactory factory = true →
          other = read language path source) →
        (c.factoryAvailable = true ↔ c.config.assumeFactoryAvailable = true ∨
          (read language path source).DeclaresMember factory)) := by
  refine ⟨declaresFactory_iff hnested factory, fun hunnested =>
    ⟨declaresFactory_iff_of_unnested hnested hunnested, ?_⟩⟩
  rintro c rfl hfile honly
  rw [← declaresFactory_iff_of_unnested hnested hunnested, Compilation.factoryAvailable,
    Bool.or_eq_true, List.any_eq_true]
  refine or_congr_right ⟨?_, fun hdeclares => ⟨_, hfile, hdeclares⟩⟩
  rintro ⟨other, hother, hdeclares⟩
  rwa [← honly other hother hdeclares]

end

/-- A method of a type in the namespace of its file, which has a nested type too. -/
def unnestedSource : String :=
  "namespace System; class Array \x7b static T[] Empty<T>() \x7b return null; \x7d " ++
    "class Item \x7b \x7d \x7d"

theorem declaresFactory_iff_hasFactoryNames_unnestedSource :
    (read .csharp "a.cs" unnestedSource).HasNestedScopes ∧
    (read .csharp "a.cs" unnestedSource).declaresFactory .standard = true ∧
    (read .csharp "a.cs" unnestedSource).DeclaresMember .standard := by
  have hnested : (read .csharp "a.cs" unnestedSource).HasNestedScopes := by decide +kernel
  have hdeclares : (read .csharp "a.cs" unnestedSource).declaresFactory .standard = true := by
    decide +kernel
  have hunnested : ∀ m, (read .csharp "a.cs" unnestedSource).Reads m →
      Language.namesEqual .csharp m.name "Empty" = true → m.IsUnnested := by
    intro m hm _
    have hall : ∀ m ∈ Language.csharp.headings.members
        (lexemes (read .csharp "a.cs" unnestedSource).tokens.toList), m.IsUnnested := by
      decide +kernel
    exact hall m ((reads_iff hnested).1 hm)
  exact ⟨hnested, hdeclares,
    ((declaresFactory_iff_hasFactoryNames hnested .standard).2 hunnested).1.1 hdeclares⟩

/-- A method of a type that is nested in another one. -/
def nestedSource : String :=
  "namespace System \x7b class Outer \x7b class Array \x7b " ++
    "static T[] Empty<T>() \x7b return null; \x7d \x7d \x7d \x7d"

/-- A file can declare the factory without declaring its method in its type. -/
theorem not_forall_declaresMember :
    ¬∀ (language : Language) (path source : String) (factory : Factory),
      (read language path source).HasNestedScopes →
      (read language path source).declaresFactory factory = true →
      (read language path source).DeclaresMember factory := by
  intro hclaim
  have hnested : (read .csharp "a.cs" nestedSource).HasNestedScopes := by decide +kernel
  obtain ⟨m, hm, hmember⟩ :=
    hclaim .csharp "a.cs" nestedSource .standard hnested (by decide +kernel)
  have hall : ∀ m ∈ Language.csharp.headings.members
      (lexemes (read .csharp "a.cs" nestedSource).tokens.toList), m.typePath = "Outer.Array" := by
    decide +kernel
  have htype := hmember.typePath
  rw [hall m ((reads_iff hnested).1 hm)] at htype
  exact absurd htype (by decide)

end Document

end ZeroAlloc

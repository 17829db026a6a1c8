import ZeroAlloc.Proofs.Document.Edits
import ZeroAlloc.Proofs.Document.Places
import ZeroAlloc.Proofs.Language.Imports
set_option autoImplicit false

/-! # The layout of a text

Blank space, comments, directives and line continuations are dropped by the lexis, so texts that
differ in nothing else have the same lexemes. What is reported and how it is fixed are then the same
up to the places of the tokens (`sameButLayout_read`). Places are compared by offsets, but offsets
are ordered as the indices of the tokens are. -/

namespace ZeroAlloc.Document

/-! ## Documents that differ in layout -/

section Same

variable (doc other : Document)

/-- The two spans hold the tokens with the same indices, each in its document. -/
def SameTokens (span span' : Text.Span) : Prop :=
  ∃ first last, first ≤ last ∧ last < doc.tokens.size ∧ last < other.tokens.size ∧
    span = doc.tokenSpan first last ∧ span' = other.tokenSpan first last

/-- The two offsets are those at which the tokens with the same index start. -/
def SameStart (offset offset' : Nat) : Prop :=
  ∃ index, index < doc.tokens.size ∧ index < other.tokens.size ∧
    offset = doc.tokenStart index ∧ offset' = other.tokenStart index

/-- The two sites are the same but for their places, and these are at the same tokens. -/
structure SameSite (s s' : Site) : Prop where
  span : SameTokens doc other (doc.siteSpan s) (other.siteSpan s')
  insertion : SameStart doc other (doc.insertionOffset s) (other.insertionOffset s')
  origin : s'.origin = s.origin
  inAttribute : s'.inAttribute = s.inAttribute
  element : s'.element = s.element
  levels : s'.levels = s.levels
  contents : s'.initializer.map Initializer.contents = s.initializer.map Initializer.contents
  /-- The initializer list of a call is empty, and it stands where the call takes an argument. -/
  initializer : ∀ i i', s.initializer = some i → s'.initializer = some i' →
    if s.origin.isCompilerGenerated then
      doc.initializerSpan s i = doc.byteSpan (doc.insertionOffset s) (doc.insertionOffset s) ∧
        other.initializerSpan s' i' =
          other.byteSpan (other.insertionOffset s') (other.insertionOffset s')
    else SameTokens doc other (doc.initializerSpan s i) (other.initializerSpan s' i')
  malformed : s'.malformed = s.malformed

/-- The two imports are the same but for their places, and these are at the same tokens. -/
structure SameImport (i i' : Import) : Prop where
  span : SameTokens doc other (doc.tokenSpan i.first i.last) (other.tokenSpan i'.first i'.last)
  path : i'.path = i.path
  aliasName : i'.aliasName = i.aliasName

/-- The two findings report the same, on the same sites. -/
structure SameFinding (finding finding' : Finding) : Prop where
  site : SameSite doc other finding.site finding'.site
  index : finding'.index = finding.index
  evidence : finding'.evidence = finding.evidence
  typeArgument : finding'.typeArgument = finding.typeArgument

/-- The two edits replace the same tokens, or insert in front of the same token, the same text. -/
structure SameEdit (e e' : Edit) : Prop where
  place : SamePlace doc other e e'
  replacement : e'.replacement = e.replacement
  message : e'.message = e.message

/-- Two documents that are the same up to the places of their tokens. -/
structure SameButLayout : Prop where
  lexemes : lexemes other.tokens.toList = lexemes doc.tokens.toList
  sites : List.Forall₂ (SameSite doc other) doc.sites other.sites
  imports : List.Forall₂ (SameImport doc other) doc.imports other.imports
  constants : other.constants = doc.constants
  genericMethods : other.genericMethods = doc.genericMethods
  hasErrors : other.hasErrors = doc.hasErrors
  findings : ∀ policy,
    List.Forall₂ (SameFinding doc other) (doc.findings policy) (other.findings policy)
  edits : ∀ policy factory, List.Forall₂ (SameEdit doc other)
    (doc.edits factory (doc.findings policy)) (other.edits factory (other.findings policy))

end Same

section Read

variable {language : Language} {path path' source source' : String}
  (h : lexemes (Lexis.tokenize language.rules source) =
    lexemes (Lexis.tokenize language.rules source'))
include h

theorem size_eq_of_lexemes_eq : (read language path source).tokens.size =
    (read language path' source').tokens.size := by
  simpa [lexemes, read] using congrArg List.length h

theorem sites_eq_of_lexemes_eq :
    (read language path' source').sites = (read language path source).sites :=
  congrArg language.sites h.symm

theorem sameTokens_of_lexemes_eq {first last : Nat} (hle : first ≤ last)
    (hlast : last < (read language path source).tokens.size) :
    SameTokens (read language path source) (read language path' source')
      ((read language path source).tokenSpan first last)
      ((read language path' source').tokenSpan first last) :=
  ⟨first, last, hle, hlast, by rwa [← size_eq_of_lexemes_eq h], rfl, rfl⟩

theorem sameSite_of_mem_sites {s : Site} (hs : s ∈ (read language path source).sites) :
    SameSite (read language path source) (read language path' source') s s := by
  have hlies := Language.liesIn_of_mem_sites hs
  have hproper := isProper_of_mem_sites hs
  have hlast : s.last < (read language path source).tokens.size := by
    simpa using last_lt_length_of_mem_sites hs
  constructor
  case span => exact sameTokens_of_lexemes_eq h hlies.first_le_last hlast
  case insertion => exact ⟨s.last, hlast, by rwa [← size_eq_of_lexemes_eq h], rfl, rfl⟩
  case initializer =>
    intro i i' hi hi'
    obtain rfl : i = i' := Option.some.inj (hi.symm.trans hi')
    cases hgenerated : s.origin.isCompilerGenerated with
    | true =>
      obtain ⟨j, hj, hopening, _⟩ := hproper.paramArray hgenerated
      obtain rfl : i = j := Option.some.inj (hi.symm.trans hj)
      exact ⟨initializerSpan_of_generated _ i hgenerated hopening,
        initializerSpan_of_generated _ i hgenerated hopening⟩
    | false =>
      simp only [Bool.false_eq_true, if_false]
      rw [initializerSpan_of_written _ i hgenerated, initializerSpan_of_written _ i hgenerated]
      exact sameTokens_of_lexemes_eq h (hproper.initializer i hi).2 hlast
  all_goals rfl

theorem sameImport_of_mem_imports {i : Import} (hi : i ∈ (read language path source).imports) :
    SameImport (read language path source) (read language path' source') i i := by
  have hlies := Language.liesBefore_of_mem_imports hi
  refine ⟨sameTokens_of_lexemes_eq h hlies.first_le_last ?_, rfl, rfl⟩
  simpa [lexemes, read] using hlies.last_lt

theorem hasErrors_eq_of_lexemes_eq : (read language path' source').hasErrors =
    (read language path source).hasErrors := by
  have hany (source : String) (path : String) : (read language path source).hasErrors =
      (lexemes (Lexis.tokenize language.rules source)).any Lexeme.isError := by
    rw [hasErrors, lexemes, List.any_map]
    exact List.any_toArray
  rw [hany, hany, h]

theorem findings_eq_of_lexemes_eq (policy : Policy) :
    (read language path' source').findings policy =
      (read language path source).findings policy := by
  have herrors : (read language path' source').hasErrors =
      (read language path source).hasErrors := hasErrors_eq_of_lexemes_eq h
  have hsites : (read language path' source').sites = (read language path source).sites :=
    sites_eq_of_lexemes_eq h
  have hconstants : (read language path' source').constants =
      (read language path source).constants := congrArg language.constants h.symm
  rw [findings, findings, herrors, hsites, hconstants]
  rfl

theorem sameFinding_of_mem_findings {policy : Policy} {finding : Finding}
    (hfinding : finding ∈ (read language path source).findings policy) :
    SameFinding (read language path source) (read language path' source') finding finding :=
  ⟨sameSite_of_mem_sites h (of_mem_findings hfinding).1, rfl, rfl, rfl⟩

/-- The edits for one finding are the same, at the same tokens. -/
theorem edit?_rel_of_mem_findings {policy : Policy} {factory : Factory} {finding : Finding}
    (hfinding : finding ∈ (read language path source).findings policy) :
    Option.Rel (fun e e' =>
      SamePlace (read language path source) (read language path' source') e e' ∧
        (e'.replacement = e.replacement ∧ e'.message = e.message))
      ((read language path source).edit? factory finding)
      ((read language path' source').edit? factory finding) := by
  obtain ⟨hsite, _, hargument⟩ := of_mem_findings hfinding
  have hlies := Language.liesIn_of_mem_sites hsite
  have hlast : finding.site.last < (read language path source).tokens.size := by
    simpa using last_lt_length_of_mem_sites hsite
  have hnonempty := Language.typeArgument?_ne_empty (isProper_of_mem_sites hsite).element hargument
  have himports : (read language path' source').imports =
      (read language path source).imports := congrArg language.imports h.symm
  have hcall : (read language path' source').replacement factory finding =
      (read language path source).replacement factory finding := by
    simp only [replacement, usesShortForm, importsNamespace, himports]
    rfl
  obtain ⟨e, he, hplace, hreplacement, hmessage⟩ :=
    exists_edit?_standsAt (read language path source) factory hlies.first_le_last hlast hnonempty
  obtain ⟨e', he', hplace', hreplacement', hmessage'⟩ :=
    exists_edit?_standsAt (read language path' source') factory hlies.first_le_last
      (by rwa [← size_eq_of_lexemes_eq h]) hnonempty
  rw [he, he']
  refine .some ⟨⟨_, hplace, hplace'⟩, ?_, ?_⟩
  · rw [hreplacement, hreplacement', hcall]
  · rw [hmessage, hmessage', hcall]

end Read

/-- Texts with the same lexemes are read, judged and fixed alike. -/
theorem sameButLayout_read (language : Language) (path path' source source' : String)
    (h : lexemes (Lexis.tokenize language.rules source) =
      lexemes (Lexis.tokenize language.rules source')) :
    SameButLayout (read language path source) (read language path' source') where
  lexemes := h.symm
  sites := by
    rw [sites_eq_of_lexemes_eq h]
    exact List.forall₂_same.2 fun s hs => sameSite_of_mem_sites h hs
  imports := by
    have himports : (read language path' source').imports =
        (read language path source).imports := congrArg language.imports h.symm
    rw [himports]
    exact List.forall₂_same.2 fun i hi => sameImport_of_mem_imports h hi
  constants := congrArg language.constants h.symm
  genericMethods := congrArg language.genericMethods h.symm
  hasErrors := hasErrors_eq_of_lexemes_eq h
  findings policy := by
    rw [findings_eq_of_lexemes_eq h]
    exact List.forall₂_same.2 fun finding hfinding => sameFinding_of_mem_findings h hfinding
  edits policy factory := by
    rw [findings_eq_of_lexemes_eq h]
    have hfindings : List.Forall₂
        (fun f f' => f = f' ∧ f ∈ (read language path source).findings policy)
        ((read language path source).findings policy)
        ((read language path source).findings policy) :=
      List.forall₂_same.2 fun finding hfinding => ⟨rfl, hfinding⟩
    refine (edits_forall₂
      (S := fun e e' => e'.replacement = e.replacement ∧ e'.message = e.message)
      (fun {f f'} hf => ?_) hfindings).imp fun e e' he => ⟨he.1, he.2.1, he.2.2⟩
    obtain ⟨rfl, hfinding⟩ := hf
    exact edit?_rel_of_mem_findings h hfinding

/-- A declaration on one line. -/
def plainLayout : String := "int[] a = new int[0];"

/-- The same declaration under a directive, with a comment in it. -/
def spreadLayout : String := "#region a\nint [ ] a =\n  /* none */ new int [0] ; // end"

theorem sameButLayout_declaration :
    lexemes (Lexis.tokenize Language.csharp.rules plainLayout) =
        lexemes (Lexis.tokenize Language.csharp.rules spreadLayout) ∧
      (read .csharp "a.cs" plainLayout).sites.length = 1 ∧
      SameButLayout (read .csharp "a.cs" plainLayout) (read .csharp "b.cs" spreadLayout) := by
  have hlexemes : lexemes (Lexis.tokenize Language.csharp.rules plainLayout) =
      lexemes (Lexis.tokenize Language.csharp.rules spreadLayout) := by decide +kernel
  exact ⟨hlexemes, by decide +kernel,
    sameButLayout_read .csharp "a.cs" "b.cs" plainLayout spreadLayout hlexemes⟩

end ZeroAlloc.Document

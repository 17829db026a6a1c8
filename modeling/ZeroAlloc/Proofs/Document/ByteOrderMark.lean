import Mathlib.Data.List.Forall2
import ZeroAlloc.Proofs.Document.Behind
import ZeroAlloc.Proofs.Language.Imports
import ZeroAlloc.Proofs.Replacement
set_option autoImplicit false

/-! # Byte-order marks

A byte-order mark is a malformed token in front of a text. All tokens behind it are those of the
text without it, so nothing else changes but what depends on being the first in the file: a
directive or attribute section that is first behind the mark is taken for neither
(`exists_sameButMark_read`). -/

namespace ZeroAlloc.Document.ByteOrderMark

open Text (byteLength)

/-! ## Documents that differ in a mark -/

/-- The span is that of the same text, behind the three bytes of the mark. -/
structure MovedSpan (span span' : Text.Span) : Prop where
  start : span'.start = span.start + 3
  stop : span'.stop = span.stop + 3

section Same

variable (doc marked : Document)

/-- The two sites are the same but for their places and contexts. -/
structure SameSite (s s' : Site) : Prop where
  span : MovedSpan (doc.siteSpan s) (marked.siteSpan s')
  insertion : marked.insertionOffset s' = doc.insertionOffset s + 3
  origin : s'.origin = s.origin
  element : s'.element = s.element
  levels : s'.levels = s.levels
  contents : s'.initializer.map Initializer.contents = s.initializer.map Initializer.contents
  initializer : ∀ i i', s.initializer = some i → s'.initializer = some i' →
    MovedSpan (doc.initializerSpan s i) (marked.initializerSpan s' i')
  malformed : s'.malformed = s.malformed

/-- The two imports are the same but for their places. -/
structure SameImport (i i' : Import) : Prop where
  span : MovedSpan (doc.tokenSpan i.first i.last) (marked.tokenSpan i'.first i'.last)
  path : i'.path = i.path
  aliasName : i'.aliasName = i.aliasName

/-- The two findings report the same, on the same sites. -/
structure SameFinding (finding finding' : Finding) : Prop where
  site : SameSite doc marked finding.site finding'.site
  index : finding'.index = finding.index
  evidence : finding'.evidence = finding.evidence
  typeArgument : finding'.typeArgument = finding.typeArgument

/-- The stretches behind the mark. -/
def behindMark (stretches : List (Nat × Nat)) : List (Nat × Nat) :=
  stretches.map fun (first, last) => (first + 1, last + 1)

/-- The second document is the first one with a mark in front. The import directive or statement at
the start of the file is not seen, and the attribute sections there are missed, of all that the file
has. -/
structure SameButMark (missed others : List (Nat × Nat)) : Prop where
  tokens : marked.tokens.toList =
    ⟨⟨.error, "\ufeff"⟩, 0⟩ :: doc.tokens.toList.map (Token.shift 3)
  hasErrors : marked.hasErrors = true
  constants : marked.constants = doc.constants
  genericMethods : marked.genericMethods = doc.genericMethods
  imports : ∃ later,
    doc.imports = doc.language.leadingImports (lexemes doc.tokens.toList) ++ later ∧
      List.Forall₂ (SameImport doc marked) later marked.imports
  sections : doc.language.attributeSections (lexemes doc.tokens.toList) = missed ++ others
  adjoin : AdjoinFrom 0 missed
  sites : List.Forall₂ (fun s s' => SameSite doc marked s s' ∧
    s.inAttribute = s.liesWithin (missed ++ others) ∧ s'.inAttribute = s.liesWithin others)
      doc.sites marked.sites
  /-- Where files with errors are left alone, the mark makes one of the file. -/
  tolerant : ∀ policy, policy.tolerateCompileErrors = true → marked.findings policy = []
  /-- Otherwise the same sites are flagged, but for further ones in the missed sections. -/
  findings : ∀ policy, policy.tolerateCompileErrors = false →
    List.Forall₂ (SameFinding doc marked) (doc.findings policy)
      ((marked.findings policy).filter fun finding =>
        !finding.site.liesWithin (behindMark missed))
  /-- A file that has the short name from its first import only has it no more. -/
  usesShortForm : ∀ factory, doc.usesShortForm factory =
    ((doc.language.leadingImports (lexemes doc.tokens.toList)).any (fun i =>
        i.aliasName.isNone && doc.language.namesEqual i.path factory.namespaceName) ||
      marked.usesShortForm factory)
  replacement : ∀ factory finding finding', SameFinding doc marked finding finding' →
    marked.usesShortForm factory = doc.usesShortForm factory →
      marked.replacement factory finding' = doc.replacement factory finding

end Same

/-- The finding at a site, if it is flagged. -/
def findingAt? (language : Language) (constants : Constants) (policy : Policy) (s : Site)
    (index : Nat) : Option Finding :=
  if (s.decision language constants policy).isFlag then
    (language.typeArgument? s).map fun typeArgument =>
      ⟨index, s, s.evidence language constants, typeArgument⟩
  else none

/-! ## Tokens behind the mark -/

section Read

variable {language : Language} {path source : String}

theorem tokenStart_marked {i : Nat} (hi : i < (read language path source).tokens.toList.length) :
    (read language path ("\ufeff" ++ source)).tokenStart (i + 1) =
      (read language path source).tokenStart i + 3 :=
  tokenStart_behind path (Lexis.tokenize_behind_mark language source) hi

theorem movedSpan_tokenSpan {i j : Nat} (hij : i ≤ j)
    (hj : j < (read language path source).tokens.toList.length) :
    MovedSpan ((read language path source).tokenSpan i j)
      ((read language path ("\ufeff" ++ source)).tokenSpan (i + 1) (j + 1)) :=
  ⟨tokenStart_marked (Nat.lt_of_le_of_lt hij hj),
    tokenStop_behind path (Lexis.tokenize_behind_mark language source) hj⟩

theorem lexemes_marked : lexemes (Lexis.tokenize language.rules ("\ufeff" ++ source)) =
    ⟨.error, "\ufeff"⟩ :: lexemes (Lexis.tokenize language.rules source) :=
  lexemes_behind (Lexis.tokenize_behind_mark language source)

/-! ## Sites and findings -/

/-- A site that is moved up, in whatever context, is the same behind the mark. -/
theorem sameSite_shift {s : Site} (hs : s ∈ (read language path source).sites)
    (inAttribute : Bool) :
    SameSite (read language path source) (read language path ("\ufeff" ++ source)) s
      (Site.shift 1 { s with inAttribute }) := by
  have hlies := Language.liesIn_of_mem_sites hs
  have hproper := isProper_of_mem_sites hs
  have hlast := last_lt_length_of_mem_sites hs
  have hinsertion := tokenStart_marked hlast
  constructor
  case span => exact movedSpan_tokenSpan hlies.first_le_last hlast
  case insertion => exact hinsertion
  case contents => cases hi : s.initializer <;> simp [Site.shift]
  case initializer =>
    intro i i' hi hi'
    obtain rfl : { i with opening := i.opening + 1 } = i' := by simpa [Site.shift, hi] using hi'
    have hsame : (Site.shift 1 { s with inAttribute }).origin = s.origin := rfl
    cases horigin : s.origin.isCompilerGenerated with
    | false =>
      rw [initializerSpan_of_written _ i horigin,
        initializerSpan_of_written _ _ (by rw [hsame, horigin])]
      exact movedSpan_tokenSpan (hproper.initializer i hi).2 hlast
    | true =>
      obtain ⟨j, hj, hopening, -⟩ := hproper.paramArray horigin
      obtain rfl : i = j := Option.some.inj (hi.symm.trans hj)
      rw [initializerSpan_of_generated _ i horigin hopening,
        initializerSpan_of_generated _ _ (by rw [hsame, horigin]) (congrArg (· + 1) hopening)]
      exact ⟨hinsertion, hinsertion⟩
  all_goals rfl

/-- A site of a file and what it is behind the mark, given the site as it was found. -/
theorem sameSite_markAttribute {s : Site} {missed others : List (Nat × Nat)}
    (hs : s.markAttribute (missed ++ others) ∈ (read language path source).sites) :
    SameSite (read language path source) (read language path ("\ufeff" ++ source))
      (s.markAttribute (missed ++ others)) ((s.markAttribute others).shift 1) := by
  have hmark : s.markAttribute others = { s.markAttribute (missed ++ others) with
      inAttribute := (s.markAttribute others).inAttribute } := by
    rw [Site.markAttribute_eq, Site.markAttribute_eq]
    split <;> split <;> rfl
  rw [hmark]
  exact sameSite_shift hs _

/-- At each site the findings are the same, unless it loses its context. -/
theorem rel_findingAt? {s : Site} (index : Nat) {missed others : List (Nat × Nat)}
    (hs : s.markAttribute (missed ++ others) ∈ (read language path source).sites)
    (constants : Constants) (policy : Policy) :
    Option.Rel
      (SameFinding (read language path source) (read language path ("\ufeff" ++ source)))
      (findingAt? language constants policy (s.markAttribute (missed ++ others)) index)
      ((findingAt? language constants policy ((s.markAttribute others).shift 1) index).filter
        fun finding => !finding.site.liesWithin (behindMark missed)) := by
  have hwithin : ((s.markAttribute others).shift 1).liesWithin (behindMark missed) =
      s.liesWithin missed := by
    rw [behindMark, Site.liesWithin_shift, Site.liesWithin_markAttribute]
  cases hmissed : s.liesWithin missed with
  | true =>
    -- passed over without the mark; behind it, what is found here is left out of the comparison
    have hskip : findingAt? language constants policy (s.markAttribute (missed ++ others)) index =
        none := by
      have hattribute : (s.markAttribute (missed ++ others)).inAttribute = true := by
        rw [Site.markAttribute_eq, Site.liesWithin_append, hmissed]
        rfl
      rw [findingAt?, Site.decision, if_pos hattribute]
      rfl
    have hdropped : (findingAt? language constants policy ((s.markAttribute others).shift 1)
        index).filter (fun finding => !finding.site.liesWithin (behindMark missed)) = none := by
      refine Option.filter_eq_none_iff.2 fun finding hfinding => ?_
      unfold findingAt? at hfinding
      split at hfinding
      · obtain ⟨argument, -, rfl⟩ := Option.map_eq_some_iff.1 hfinding
        simp [hwithin, hmissed]
      · cases hfinding
    rw [hskip, hdropped]
    exact .none
  | false =>
    -- the context is the same in both files, and so is the decision
    have hmark : s.markAttribute (missed ++ others) = s.markAttribute others := by
      rw [Site.markAttribute_eq, Site.markAttribute_eq, Site.liesWithin_append, hmissed]
      rfl
    have hsame := sameSite_markAttribute hs
    rw [hmark] at hsame ⊢
    unfold findingAt?
    rw [Site.decision_shift, Site.evidence_shift, Language.typeArgument?_shift]
    split
    · cases language.typeArgument? (s.markAttribute others) with
      | none => exact .none
      | some argument =>
        rw [Option.map_some, Option.map_some, Option.filter_some, hwithin, hmissed]
        exact .some ⟨hsame, rfl, rfl, rfl⟩
    · exact .none

/-- The findings of a file, where it is judged. -/
theorem findings_eq_filterMap (doc : Document) {policy : Policy}
    (htolerate : policy.tolerateCompileErrors = false) :
    doc.findings policy =
      if policy.factoryAvailable then
        doc.sites.zipIdx.filterMap fun (s, index) =>
          findingAt? doc.language doc.constants policy s index
      else [] := by
  rw [findings, htolerate, Bool.false_and, Bool.not_false, Bool.and_true]
  rfl

end Read

/-- Picking from a row twice, the second time with a test, gives related results if it does so at
each member. -/
theorem forall₂_filterMap_filter {α β γ : Type} {R : β → γ → Prop} {f : α → Option β}
    {g : α → Option γ} {p : γ → Bool} {xs : List α}
    (h : ∀ x ∈ xs, Option.Rel R (f x) ((g x).filter p)) :
    List.Forall₂ R (xs.filterMap f) ((xs.filterMap g).filter p) := by
  rw [List.filter_filterMap]
  refine List.rel_filterMap (R := fun x y => x = y ∧ x ∈ xs) ?_
    (List.forall₂_same.2 fun x hx => ⟨rfl, hx⟩)
  rintro x _ ⟨rfl, hx⟩
  exact h x hx

/-! ## Files with a mark -/

section Marked

variable {language : Language} {path source : String}

/-- The imports that are left are those behind the mark. -/
theorem forall₂_imports {later : List Import}
    (h : later ⊆ (read language path source).imports)
    (h' : (read language path ("\ufeff" ++ source)).imports = later.map (Import.shift 1)) :
    List.Forall₂ (SameImport (read language path source)
      (read language path ("\ufeff" ++ source))) later
        (read language path ("\ufeff" ++ source)).imports := by
  rw [h', List.forall₂_map_right_iff, List.forall₂_same]
  intro i hi
  have hlies := Language.liesBefore_of_mem_imports (h hi)
  refine ⟨movedSpan_tokenSpan hlies.first_le_last ?_, rfl, rfl⟩
  simpa [lexemes, read] using hlies.last_lt

/-- A file has the short name of the factory from the imports that the mark takes away, or has it
behind the mark as well. -/
theorem usesShortForm_eq {leading later : List Import}
    (h : (read language path source).imports = leading ++ later)
    (h' : (read language path ("\ufeff" ++ source)).imports = later.map (Import.shift 1))
    (factory : Factory) :
    (read language path source).usesShortForm factory =
      (leading.any (fun i =>
          i.aliasName.isNone && language.namesEqual i.path factory.namespaceName) ||
        (read language path ("\ufeff" ++ source)).usesShortForm factory) := by
  rw [usesShortForm, usesShortForm, importsNamespace, importsNamespace, h, h', List.any_append,
    List.any_map]
  rfl

/-! `found` are the sites as the recognisers see them. Each file marks them by its own sections. -/

variable {found : List Site} {missed others : List (Nat × Nat)}
  (hsites : (read language path source).sites =
    found.map (Site.markAttribute (missed ++ others)))
  (hsites' : (read language path ("\ufeff" ++ source)).sites =
    found.map fun s => (s.markAttribute others).shift 1)
include hsites hsites'

theorem forall₂_sites
    (hsections : language.attributeSections (lexemes (Lexis.tokenize language.rules source)) =
      missed ++ others)
    (hsections' : language.attributeSections
        (lexemes (Lexis.tokenize language.rules ("\ufeff" ++ source))) = behindMark others) :
    List.Forall₂ (fun s s' => SameSite (read language path source)
        (read language path ("\ufeff" ++ source)) s s' ∧
      s.inAttribute = s.liesWithin (missed ++ others) ∧ s'.inAttribute = s.liesWithin others)
        (read language path source).sites (read language path ("\ufeff" ++ source)).sites := by
  have hmem : ∀ s ∈ (read language path source).sites,
      s.inAttribute = s.liesWithin (missed ++ others) := by
    intro s hs
    rw [← hsections]
    exact Language.inAttribute_of_mem_sites hs
  have hmem' : ∀ s ∈ (read language path ("\ufeff" ++ source)).sites,
      s.inAttribute = s.liesWithin (behindMark others) := by
    intro s hs
    rw [← hsections']
    exact Language.inAttribute_of_mem_sites hs
  rw [hsites] at hmem
  rw [hsites'] at hmem'
  rw [hsites', hsites, List.forall₂_map_left_iff, List.forall₂_map_right_iff, List.forall₂_same]
  intro s hs
  refine ⟨sameSite_markAttribute (hsites ▸ List.mem_map_of_mem hs),
    hmem _ (List.mem_map_of_mem hs), (hmem' _ (List.mem_map_of_mem hs)).trans ?_⟩
  rw [behindMark, Site.liesWithin_shift, Site.liesWithin_markAttribute,
    Site.liesWithin_markAttribute]

theorem forall₂_findings
    (hconstants : (read language path ("\ufeff" ++ source)).constants =
      (read language path source).constants)
    {policy : Policy} (htolerate : policy.tolerateCompileErrors = false) :
    List.Forall₂ (SameFinding (read language path source)
        (read language path ("\ufeff" ++ source)))
      ((read language path source).findings policy)
      (((read language path ("\ufeff" ++ source)).findings policy).filter fun finding =>
        !finding.site.liesWithin (behindMark missed)) := by
  have hmem : ∀ s ∈ found, s.markAttribute (missed ++ others) ∈
      (read language path source).sites := fun s hs => hsites ▸ List.mem_map_of_mem hs
  rw [findings_eq_filterMap _ htolerate, findings_eq_filterMap _ htolerate, hconstants]
  split
  · rw [hsites, hsites', List.zipIdx_map, List.zipIdx_map, List.filterMap_map, List.filterMap_map]
    refine forall₂_filterMap_filter fun p hp => ?_
    exact rel_findingAt? p.2 (hmem p.1 (List.fst_mem_of_mem_zipIdx hp)) _ policy
  · exact .nil

end Marked

/-- A byte-order mark in front of a source is one malformed token. Behind it the source is read as
it is alone, but for a directive and attribute sections that it starts with. -/
theorem exists_sameButMark_read (language : Language) (path source : String) :
    ∃ missed others, SameButMark (read language path source)
      (read language path ("\ufeff" ++ source)) missed others := by
  have htokens := Lexis.tokenize_behind_mark language source
  have hlexemes : lexemes (Lexis.tokenize language.rules ("\ufeff" ++ source)) = _ :=
    lexemes_marked
  obtain ⟨found, missed, others, hadjoin, hsections, hsections', hsites, hsites'⟩ :=
    language.exists_sites_behind_mark (lexemes (Lexis.tokenize language.rules source))
  obtain ⟨later, himports, himports'⟩ :=
    language.exists_imports_behind_mark (lexemes (Lexis.tokenize language.rules source))
  rw [← hlexemes] at hsections' hsites' himports'
  have herrors : (read language path ("\ufeff" ++ source)).hasErrors = true :=
    hasErrors_behind path htokens
  have hconstants : (read language path ("\ufeff" ++ source)).constants =
      (read language path source).constants :=
    (congrArg language.constants hlexemes).trans (language.constants_behind_mark _)
  have hlater : later ⊆ language.imports (lexemes (Lexis.tokenize language.rules source)) :=
    himports ▸ List.subset_append_right _ later
  refine ⟨missed, others, ?_⟩
  exact {
    tokens := htokens
    hasErrors := herrors
    constants := hconstants
    genericMethods :=
      (congrArg language.genericMethods hlexemes).trans (language.genericMethods_behind_mark _)
    imports := ⟨later, himports, forall₂_imports hlater himports'⟩
    sections := hsections
    adjoin := hadjoin
    sites := forall₂_sites hsites hsites' hsections hsections'
    tolerant := fun policy htolerate => by simp [findings, htolerate, herrors]
    findings := fun _ => forall₂_findings hsites hsites' hconstants
    usesShortForm := usesShortForm_eq himports himports'
    replacement := fun factory finding finding' hsame hshort => by
      rw [replacement, replacement, hsame.typeArgument, hshort]
      rfl }

/-! ## What the mark changes -/

/-- The mark makes no difference to the file, but for the places. -/
structure IsIndependent (doc marked : Document) : Prop where
  hasErrors : marked.hasErrors = doc.hasErrors
  imports : marked.imports.map (fun i => (i.path, i.aliasName)) =
    doc.imports.map fun i => (i.path, i.aliasName)
  constants : marked.constants = doc.constants
  genericMethods : marked.genericMethods = doc.genericMethods
  sites : List.Forall₂ (fun s s' => SameSite doc marked s s' ∧ s'.inAttribute = s.inAttribute)
    doc.sites marked.sites
  replacements : ∀ policy factory,
    (marked.findings policy).map (marked.replacement factory) =
      (doc.findings policy).map (doc.replacement factory)

/-- A file that starts with an import and goes on with an allocation of length zero. -/
def importFirst : String := "using System;\nclass C \x7b int[] a = new int[0]; \x7d"

/-- Behind a mark, the import is lost, and with it the short name of the factory. -/
theorem not_forall_isIndependent : ¬ ∀ (language : Language) (path source : String),
    source.toList.head? ≠ some '\ufeff' →
      IsIndependent (read language path source) (read language path ("\ufeff" ++ source)) := by
  intro h
  have hindependent := h .csharp "a.cs" importFirst (by decide)
  have himports : (read .csharp "a.cs" importFirst).imports.length = 1 := by decide +kernel
  have hlost : (read .csharp "a.cs" ("\ufeff" ++ importFirst)).imports.length = 0 := by
    change (Language.csharp.imports
      (lexemes (Lexis.tokenize Language.csharp.rules ("\ufeff" ++ importFirst)))).length = 0
    rw [lexemes_marked]
    decide +kernel
  have hlength := congrArg List.length hindependent.imports
  rw [List.length_map, List.length_map, himports, hlost] at hlength
  cases hlength

end ZeroAlloc.Document.ByteOrderMark

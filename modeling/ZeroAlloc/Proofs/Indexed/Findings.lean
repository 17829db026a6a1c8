import Mathlib.Data.List.Basic
import ZeroAlloc.Proofs.Document.WellFormed
import ZeroAlloc.Proofs.Indexed.CSharp.Declarations
import ZeroAlloc.Proofs.Indexed.CSharp.Sites
import ZeroAlloc.Proofs.Indexed.Size
import ZeroAlloc.Proofs.Indexed.VisualBasic.Declarations
import ZeroAlloc.Proofs.Indexed.VisualBasic.Sites
import ZeroAlloc.Proofs.Language.Constants
import ZeroAlloc.Proofs.Lexis.Tiling
import ZeroAlloc.Replacement
set_option autoImplicit false

/-! # Reading documents by indices

A text is split into tokens, and everything that is recognised in it is found by indices of tokens.
Whatever the text is, that does not fail, and gives what is recognised in the lexemes
(`read_eq_done`). The sites of a document are judged by their levels, of which the first one is
allocated; those that are flagged are replaced. From the text to the edits no operation fails, and
the outcome is the one that is told from the lexemes (`analyse_eq_done`). -/

namespace ZeroAlloc

namespace Indexed

open Attempt (ofOption)

/-- A document with the spans of all that is recognised in it. -/
structure PlacedDocument where
  path : String
  language : Language
  tree : Tree
  sites : List PlacedSite
  imports : List PlacedImport
  constants : Constants
  genericMethods : List GenericMethod

/-- The text of a document with its tokens. -/
def treeOf (doc : Document) : Tree :=
  ⟨doc.source.toList, doc.tokens.toList⟩

/-- A document that is read by lexemes, with all its spans. -/
def PlacedDocument.of (doc : Document) : PlacedDocument where
  path := doc.path
  language := doc.language
  tree := treeOf doc
  sites := doc.sites.map (treeOf doc).place
  imports := doc.imports.map (treeOf doc).placeImport
  constants := doc.constants
  genericMethods := doc.genericMethods

/-! ## What each language recognises -/

/-- The array creation sites of a file. -/
def sites (language : Language) (t : Tree) : Attempt (List PlacedSite) :=
  match language with
  | .csharp => CSharp.sites t
  | .visualBasic => VisualBasic.sites t

/-- The imports of a file. -/
def imports (language : Language) (t : Tree) : Attempt (List PlacedImport) :=
  match language with
  | .csharp => CSharp.importsFrom t 0 0 t.row.length
  | .visualBasic => collect (VisualBasic.importsAt t) 0 t.row.length

/-- The declarations of constants in a file. -/
def constantDeclarations (language : Language) (ls : List Lexeme) :
    Attempt (List (String × List Lexeme)) :=
  match language with
  | .csharp => collect (CSharp.constantsAt ls) 0 ls.length
  | .visualBasic => collect (VisualBasic.constantsAt ls) 0 ls.length

/-- The generic methods of a file. -/
def genericMethods (language : Language) (ls : List Lexeme) : Attempt (List GenericMethod) :=
  match language with
  | .csharp => CSharp.genericMethodsFrom ls ⟨[], none, none⟩ 0 ls.length
  | .visualBasic => VisualBasic.genericMethodsFrom ls [] 0 ls.length

/-- Read a source text. -/
def read (language : Language) (path source : String) : Attempt PlacedDocument := do
  let tokens ← tokens language.rules source.toList
  let tree : Tree := ⟨source.toList, tokens⟩
  let sites ← sites language tree
  let imports ← imports language tree
  let declarations ← constantDeclarations language tree.row
  let genericMethods ← genericMethods language tree.row
  pure {
    path
    language
    tree
    sites
    imports
    constants := .ofDeclarations declarations
    genericMethods }

variable {t : Tree}

theorem imports_eq_done (ht : t.IsTiled) (language : Language) :
    imports language t = .done ((language.imports t.row).map t.placeImport) := by
  cases language with
  | csharp =>
    have himports := CSharp.importsFrom_eq ht (Nat.zero_add t.row.length) 0
    rwa [List.take_zero, List.reverse_nil, List.drop_zero] at himports
  | visualBasic => exact collect_eq_done fun i hi => VisualBasic.importsAt_eq ht hi

theorem constantDeclarations_eq_done (language : Language) (ls : List Lexeme) :
    constantDeclarations language ls = .done (language.constantDeclarations ls) := by
  cases language with
  | csharp =>
    have hdeclared := @collect_eq_done _ _ (CSharp.constantsAt ls)
      (fun _ here => CSharp.constants? here) id ls fun i _ => by
        rw [CSharp.constantsAt_eq, List.map_id]
    rwa [List.map_id] at hdeclared
  | visualBasic =>
    have hdeclared := @collect_eq_done _ _ (VisualBasic.constantsAt ls)
      (fun _ here => VisualBasic.constantsOf here) id ls fun i _ => by
        rw [VisualBasic.constantsAt_eq, List.map_id]
    rwa [List.map_id] at hdeclared

theorem genericMethods_eq_done (language : Language) (ls : List Lexeme) :
    genericMethods language ls = .done (language.genericMethods ls) := by
  cases language with
  | csharp =>
    have hmethods := CSharp.genericMethodsFrom_eq (Nat.zero_add ls.length) ⟨[], none, none⟩
    rwa [List.take_zero, List.reverse_nil, List.drop_zero] at hmethods
  | visualBasic =>
    have hmethods := VisualBasic.genericMethodsFrom_eq (Nat.zero_add ls.length) []
    rwa [List.take_zero, List.reverse_nil, List.drop_zero] at hmethods

/-! ## Documents -/

theorem isTiled_treeOf (language : Language) (path source : String) :
    (treeOf (Document.read language path source)).IsTiled :=
  Lexis.tiles_tokenize language.rules source

theorem isPlain_treeOf (path source : String) :
    CSharp.IsPlain (treeOf (Document.read .csharp path source)) := by
  intro l hl
  obtain ⟨token, htoken, rfl⟩ := List.mem_map.1 hl
  exact Lexis.CSharp.isNewline_of_mem_tokenize htoken

theorem sites_eq_done (language : Language) (path source : String) :
    sites language (treeOf (Document.read language path source)) =
      .done ((Document.read language path source).sites.map
        (treeOf (Document.read language path source)).place) := by
  have ht := isTiled_treeOf language path source
  cases language with
  | csharp => exact CSharp.sites_eq_done ht (isPlain_treeOf path source)
  | visualBasic => exact VisualBasic.sites_eq_done ht

/-- Reading a text does not fail, whatever the text is. -/
theorem read_eq_done (language : Language) (path source : String) :
    read language path source = .done (.of (Document.read language path source)) := by
  have ht := isTiled_treeOf language path source
  have htree : (⟨source.toList, Lexis.tokenize language.rules source⟩ : Tree) =
      treeOf (Document.read language path source) := rfl
  rw [read, tokens_eq_done, Attempt.done_bind]
  dsimp only
  rw [htree, sites_eq_done, Attempt.done_bind, imports_eq_done ht, Attempt.done_bind,
    constantDeclarations_eq_done, Attempt.done_bind, genericMethods_eq_done, Attempt.done_bind,
    ← Language.constants_eq_ofDeclarations]
  rfl

/-! ## Judging sites -/

/-- Whether no allocation is written in the source. -/
def PlacedOrigin.isCompilerGenerated : PlacedOrigin → Bool
  | explicit => false
  | implicitInitializer => false
  | paramArray _ _ => true

namespace PlacedSite

section

variable (s : PlacedSite) (language : Language) (constants : Constants)

/-- What is known about the length of the allocated level. -/
def evidence : Attempt Evidence := do
  let allocated ← allocatedLevel s.levels
  match allocated.sizes with
  | some size :: _ => do
    let length ← (lengthAt language constants size).optional
    pure <| match length with
      | some 0 => .constantZero
      | some _ => .constantNonZero
      | none => .unknown
  | _ =>
    pure <| match s.initializer with
      | some i => if i.contents.isEmpty then .emptyInitializer else .constantNonZero
      | none => .unknown

/-- The verdict on a site. -/
def decision (policy : Policy) : Attempt Decision :=
  if s.inAttribute then pure (.skip .attributeArgument)
  else if s.origin.isCompilerGenerated && policy.compilerGenerated = .skip then
    pure (.skip .compilerGenerated)
  else if s.malformed then pure (.skip .malformedSyntax)
  else do
    let allocated ← allocatedLevel s.levels
    if allocated.rank > 1 then pure (.skip .multiDimensional)
    else if s.element.isPointer then pure (.skip .pointerElement)
    else do
      let evidence ← s.evidence language constants
      pure <| match evidence with
        | .constantNonZero => .skip .knownNonZero
        | .unknown => .skip .unknownLength
        | _ => if s.element.resolved then .flag else .skip .unresolvedType

/-- The element type of the array that a site allocates, as a type argument. -/
def typeArgument : Attempt String := do
  let text ← ofOption s.element.text?
  let inner ← innerLevels s.levels
  pure (text ++ String.join (inner.map fun level => language.levelText level.rank))

end

end PlacedSite

section

variable (t : Tree) (s : Site) (language : Language) (constants : Constants)

theorem contents_placeInitializer (i : Initializer) :
    (t.placeInitializer s i).contents = i.contents := by
  rw [Tree.placeInitializer]
  cases s.origin <;> rfl

theorem isCompilerGenerated_placeOrigin :
    (t.placeOrigin s).isCompilerGenerated = s.origin.isCompilerGenerated := by
  rw [Tree.placeOrigin]
  cases s.origin <;> rfl

theorem evidence_place :
    (t.place s).evidence language constants = .done (s.evidence language constants) := by
  have hlevels : allocatedLevel (t.place s).levels = .done s.allocated := rfl
  have hinitializer : (t.place s).initializer = s.initializer.map (t.placeInitializer s) := rfl
  rw [PlacedSite.evidence, Site.evidence, hlevels, Attempt.done_bind, hinitializer]
  rcases s.allocated.sizes with _ | ⟨_ | size, sizes⟩
  · cases s.initializer with
    | none => rfl
    | some i => simp [contents_placeInitializer]
  · cases s.initializer with
    | none => rfl
    | some i => simp [contents_placeInitializer]
  · dsimp only
    rw [lengthAt_eq, Attempt.optional_ofOption]
    rfl

theorem decision_place (policy : Policy) :
    (t.place s).decision language constants policy =
      .done (s.decision language constants policy) := by
  have hlevels : allocatedLevel (t.place s).levels = .done s.allocated := rfl
  have horigin : (t.place s).origin.isCompilerGenerated = s.origin.isCompilerGenerated :=
    isCompilerGenerated_placeOrigin t s
  rw [PlacedSite.decision, Site.decision, hlevels, Attempt.done_bind, horigin, evidence_place,
    Attempt.done_bind]
  change (if s.inAttribute then _ else _) = _
  split
  · rfl
  · split
    · rfl
    · change (if s.malformed then _ else _) = _
      split
      · rfl
      · split
        · rfl
        · change (if s.element.isPointer then _ else _) = _
          split
          · rfl
          · rfl

theorem typeArgument_place :
    (t.place s).typeArgument language = ofOption (language.typeArgument? s) := by
  rw [PlacedSite.typeArgument, Language.typeArgument?]
  change (ofOption s.element.text? >>= _) = _
  cases s.element.text? <;> rfl

end

/-! ## Findings -/

/-- A flagged site with its span. -/
structure PlacedFinding where
  /-- Index of the site in its document. -/
  index : Nat
  span : Text.Span
  origin : PlacedOrigin
  evidence : Evidence
  /-- The element type of the array, as a type argument. -/
  typeArgument : String

/-- A finding that is told from the lexemes, with its span. -/
def PlacedFinding.of (doc : Document) (finding : Finding) : PlacedFinding where
  index := finding.index
  span := ((treeOf doc).place finding.site).span
  origin := ((treeOf doc).place finding.site).origin
  evidence := finding.evidence
  typeArgument := finding.typeArgument

namespace PlacedDocument

variable (doc : PlacedDocument)

/-- The finding for a site with its index, if the site is flagged. -/
def findingAt (policy : Policy) (p : PlacedSite × Nat) : Attempt PlacedFinding := do
  let decision ← p.1.decision doc.language doc.constants policy
  if decision.isFlag then do
    let typeArgument ← p.1.typeArgument doc.language
    let evidence ← p.1.evidence doc.language doc.constants
    pure ⟨p.2, p.1.span, p.1.origin, evidence, typeArgument⟩
  else .absent

/-- Whether anything in the text is malformed. -/
def hasErrors : Bool :=
  doc.tree.tokens.any fun token => token.isError

/-- The findings in a document, in order of position. -/
def findings (policy : Policy) : Attempt (List PlacedFinding) :=
  if policy.factoryAvailable && !(policy.tolerateCompileErrors && doc.hasErrors) then do
    let found ← doc.sites.zipIdx.mapM fun p => (doc.findingAt policy p).toList
    pure found.flatten
  else pure []

/-! ## Edits -/

/-- Whether the file imports the namespace under its own name. -/
def importsNamespace (name : String) : Bool :=
  doc.imports.any fun i => i.aliasName.isNone && doc.language.namesEqual i.path name

/-- The edit that removes a finding. -/
def edit? (factory : Factory) (finding : PlacedFinding) : Option Edit :=
  let qualifier :=
    if doc.importsNamespace factory.namespaceName then none else some factory.namespaceName
  let call := doc.language.invocation qualifier factory finding.typeArgument
  let message := "Use " ++ call ++ " instead"
  if finding.typeArgument.isEmpty then none
  else
    match finding.origin with
    | .paramArray insertAt needsSeparator =>
      some ⟨insertAt, insertAt, (if needsSeparator then ", " else "") ++ call, message⟩
    | _ => some ⟨finding.span.start, finding.span.stop, call, message⟩

/-- The edits for a row of findings, of which those that overlap an earlier one are left out. -/
def edits (factory : Factory) (findings : List PlacedFinding) : List Edit :=
  keepDisjoint (findings.filterMap (doc.edit? factory))

end PlacedDocument

/-- What becomes of a source text: the document, the findings in it, and the edits that remove
them. -/
def analyse (language : Language) (path source : String) (policy : Policy) (factory : Factory) :
    Attempt (PlacedDocument × List PlacedFinding × List Edit) := do
  let doc ← read language path source
  let findings ← doc.findings policy
  pure (doc, findings, doc.edits factory findings)

section

variable (doc : Document)

/-- The finding for a site of the lexemes with its index, if the site is flagged. -/
def finding? (policy : Policy) (p : Site × Nat) : Option Finding :=
  if (p.1.decision doc.language doc.constants policy).isFlag then
    (doc.language.typeArgument? p.1).map fun typeArgument =>
      ⟨p.2, p.1, p.1.evidence doc.language doc.constants, typeArgument⟩
  else none

theorem findingAt_of (policy : Policy) (p : Site × Nat) :
    (PlacedDocument.of doc).findingAt policy ((treeOf doc).place p.1, p.2) =
      ofOption ((finding? doc policy p).map (PlacedFinding.of doc)) := by
  rw [PlacedDocument.findingAt, finding?, decision_place, Attempt.done_bind]
  change (if (p.1.decision doc.language doc.constants policy).isFlag then _ else _) = _
  split
  · rw [typeArgument_place]
    change (ofOption (doc.language.typeArgument? p.1) >>= _) = _
    cases doc.language.typeArgument? p.1 with
    | none => rfl
    | some typeArgument =>
      rw [Attempt.ofOption_some, Attempt.done_bind, evidence_place]
      rfl
  · rfl

theorem findings_of (policy : Policy) :
    (PlacedDocument.of doc).findings policy =
      .done ((doc.findings policy).map (PlacedFinding.of doc)) := by
  have herrors : (PlacedDocument.of doc).hasErrors = doc.hasErrors := Array.any_toList
  have hsites : (PlacedDocument.of doc).sites.zipIdx =
      doc.sites.zipIdx.map (Prod.map (treeOf doc).place id) := List.zipIdx_map
  have hfound : (PlacedDocument.of doc).sites.zipIdx.mapM
      (fun p => ((PlacedDocument.of doc).findingAt policy p).toList) =
        .done (doc.sites.zipIdx.map fun p =>
          ((finding? doc policy p).map (PlacedFinding.of doc)).toList) := by
    rw [hsites, List.mapM_map]
    refine Attempt.mapM_eq_done fun p _ => ?_
    rw [Function.comp_apply, ← Attempt.toList_ofOption, ← findingAt_of]
    rfl
  rw [PlacedDocument.findings, Document.findings, herrors, hfound]
  change (if policy.factoryAvailable && !(policy.tolerateCompileErrors && doc.hasErrors) then _
    else _) = Attempt.done (List.map _ (if policy.factoryAvailable &&
      !(policy.tolerateCompileErrors && doc.hasErrors) then
        doc.sites.zipIdx.filterMap (finding? doc policy) else []))
  split
  · rw [List.map_filterMap, List.filterMap_eq_flatMap_toList]
    rfl
  · rfl

theorem start_treeOf (i : Nat) : (treeOf doc).start i = doc.tokenStart i := by
  rw [Tree.start, Document.tokenStart, ← Array.getElem?_toList]
  rfl

theorem stop_treeOf (i : Nat) : (treeOf doc).stop i = doc.tokenStop i := by
  rw [Tree.stop, Document.tokenStop, ← Array.getElem?_toList]
  rfl

theorem spanOf_treeOf (s : Site) : (treeOf doc).spanOf s.first s.last = doc.siteSpan s := by
  rw [Tree.spanOf, start_treeOf, stop_treeOf]
  rfl

theorem edit?_of (factory : Factory) (finding : Finding) :
    (PlacedDocument.of doc).edit? factory (.of doc finding) = doc.edit? factory finding := by
  have himports : (PlacedDocument.of doc).importsNamespace factory.namespaceName =
      doc.usesShortForm factory := by
    rw [PlacedDocument.importsNamespace, Document.usesShortForm, Document.importsNamespace]
    exact List.any_map
  have hspan : (PlacedFinding.of doc finding).span = doc.siteSpan finding.site :=
    spanOf_treeOf doc finding.site
  have horigin : (PlacedFinding.of doc finding).origin =
      (treeOf doc).placeOrigin finding.site := rfl
  have hargument : (PlacedFinding.of doc finding).typeArgument = finding.typeArgument := rfl
  rw [PlacedDocument.edit?, Document.edit?, Document.replacement, himports, hspan, horigin,
    hargument]
  dsimp only
  split
  · rfl
  · rw [Tree.placeOrigin]
    cases finding.site.origin with
    | paramArray needsSeparator =>
      dsimp only
      rw [start_treeOf]
      rfl
    | _ => rfl

theorem edits_of (factory : Factory) (findings : List Finding) :
    (PlacedDocument.of doc).edits factory (findings.map (.of doc)) =
      doc.edits factory findings := by
  rw [PlacedDocument.edits, Document.edits, List.filterMap_map]
  congr 2
  exact funext fun finding => edit?_of doc factory finding

end

/-- What the lexemes of a document tell. -/
def analysisOf (doc : Document) (policy : Policy) (factory : Factory) :
    PlacedDocument × List PlacedFinding × List Edit :=
  (.of doc, (doc.findings policy).map (.of doc), doc.edits factory (doc.findings policy))

/-- No text makes an operation fail: it is read, judged and rewritten as its lexemes tell. -/
theorem analyse_eq_done (language : Language) (path source : String) (policy : Policy)
    (factory : Factory) :
    analyse language path source policy factory =
      .done (analysisOf (Document.read language path source) policy factory) := by
  rw [analyse, read_eq_done, Attempt.done_bind, findings_of, Attempt.done_bind, edits_of]
  rfl

end Indexed

end ZeroAlloc

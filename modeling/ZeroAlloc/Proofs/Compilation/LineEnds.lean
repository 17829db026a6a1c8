import ZeroAlloc.Proofs.Compilation.Files
import ZeroAlloc.Proofs.Config.Validation
import ZeroAlloc.Proofs.Document.Edits
import ZeroAlloc.Proofs.Document.LineEnds
set_option autoImplicit false

/-! # Line ends in a compilation

Files whose lines end with carriage return and line feed are reported and fixed as the same files
with plain line feeds (`sameButReturns_ofSources`). -/

namespace ZeroAlloc

open Text (returned)

/-- If the steps succeed on related members, all of them do, with related outcomes. -/
theorem exists_mapM_eq_ok_of_forall₂ {α α' β β' ε : Type} {f : α → Except ε β}
    {f' : α' → Except ε β'} {R : α → α' → Prop} {S : β → β' → Prop}
    (hstep : ∀ x x', R x x' → ∃ y y', f x = .ok y ∧ f' x' = .ok y' ∧ S y y') {xs : List α}
    {xs' : List α'} (h : List.Forall₂ R xs xs') :
    ∃ ys ys', xs.mapM f = .ok ys ∧ xs'.mapM f' = .ok ys' ∧ List.Forall₂ S ys ys' := by
  induction h with
  | nil => exact ⟨[], [], rfl, rfl, .nil⟩
  | cons hx _ ih =>
    obtain ⟨y, y', hy, hy', hsame⟩ := hstep _ _ hx
    obtain ⟨ys, ys', hys, hys', hrest⟩ := ih
    refine ⟨y :: ys, y' :: ys', ?_, ?_, .cons hsame hrest⟩
    · rw [List.mapM_cons, hy, hys]
      rfl
    · rw [List.mapM_cons, hy', hys']
      rfl

/-- Pieces of related lists are related, one behind the other. -/
theorem forall₂_flatMap {α α' β β' : Type} {R : α → α' → Prop} {S : β → β' → Prop}
    {f : α → List β} {f' : α' → List β'} (hf : ∀ x x', R x x' → List.Forall₂ S (f x) (f' x'))
    {xs : List α} {xs' : List α'} (h : List.Forall₂ R xs xs') :
    List.Forall₂ S (xs.flatMap f) (xs'.flatMap f') := by
  induction h with
  | nil => exact .nil
  | cons hx _ ih => exact List.rel_append (hf _ _ hx) ih

/-- The name of the factory of a valid configuration has no marks. -/
theorem Config.isUnmarked_of_error?_eq_none {config : Config} (h : config.error? = none) :
    config.factory.IsUnmarked := by
  have hmarks : (foreignMarks.all fun c => !isNameChar c) = true := by decide
  have hfield (field : FactoryField) : holdsMark (field.value config.factory) = false := by
    rw [Bool.eq_false_iff, ne_eq, holdsMark_iff]
    rintro ⟨c, hc, hmark⟩
    have hname := isNameChar_of_error?_eq_none h field c hc
    have hnone := List.all_eq_true.1 hmarks c hmark
    rw [hname] at hnone
    cases hnone
  exact ⟨hfield .namespaceName, hfield .typeName, hfield .method⟩

namespace Compilation

/-! ## Files -/

/-- The second document is the first one with carriage returns. -/
def IsReturned (doc doc' : Document) : Prop :=
  ∃ language path source, '\r' ∉ String.toList source ∧ doc = Document.read language path source ∧
    doc' = Document.read language path (returned source)

/-- The source with carriage returns, at the same path. -/
def returnedFile (file : String × String) : String × String :=
  (file.1, returned file.2)

/-- The readings of one source with both line ends. -/
theorem documentOf?_returnedFile {file : String × String} (h : '\r' ∉ file.2.toList) :
    documentOf? file = none ∧ documentOf? (returnedFile file) = none ∨
      ∃ doc doc', documentOf? file = some doc ∧ documentOf? (returnedFile file) = some doc' ∧
        IsReturned doc doc' := by
  have hpath : languageOf? (returnedFile file).1 = languageOf? file.1 := rfl
  rw [documentOf?, documentOf?, hpath]
  rcases languageOf? file.1 with _ | language
  · exact .inl ⟨rfl, rfl⟩
  · exact .inr ⟨_, _, rfl, rfl, language, file.1, file.2, h, rfl, rfl⟩

theorem readings_forall₂ {sources : List (String × String)}
    (h : ∀ file ∈ sources, '\r' ∉ file.2.toList) :
    List.Forall₂ IsReturned (sources.filterMap documentOf?)
      ((sources.map returnedFile).filterMap documentOf?) := by
  induction sources with
  | nil => exact .nil
  | cons file sources ih =>
    obtain ⟨hfile, hmore⟩ := List.forall_mem_cons.1 h
    rw [List.map_cons]
    rcases documentOf?_returnedFile hfile with ⟨hnone, hnone'⟩ | ⟨doc, doc', hread, hread', hdoc⟩
    · rw [List.filterMap_cons_none hnone, List.filterMap_cons_none hnone']
      exact ih hmore
    · rw [List.filterMap_cons_some hread, List.filterMap_cons_some hread']
      exact .cons hdoc (ih hmore)

theorem files_forall₂ (config : Config) {sources : List (String × String)}
    (h : ∀ file ∈ sources, '\r' ∉ file.2.toList) :
    List.Forall₂ IsReturned (ofSources config sources).files
      (ofSources config (sources.map returnedFile)).files := by
  refine forall₂_mergeSort (R := IsReturned) ?_ (readings_forall₂ h)
  rintro _ _ _ _ ⟨_, path, _, _, rfl, rfl⟩ ⟨_, path', _, _, rfl, rfl⟩
  rfl

end Compilation

/-! ## Reports -/

/-- The two diagnostics are at the same place of the same file. -/
structure Diagnostic.SamePlace (d d' : Diagnostic) : Prop where
  key : d'.key = d.key
  file : d'.file = d.file
  line : d'.line = d.line
  endLine : d'.endLine = d.endLine
  endColumn : d'.endColumn = d.endColumn

namespace Compilation

/-- The two compilations report the same, and the fixed texts of the second one are those of the
first one with carriage returns. -/
structure SameButReturns (c other : Compilation) : Prop where
  diagnostics : List.Forall₂ Diagnostic.SamePlace c.result.diagnostics other.result.diagnostics
  suppressed : List.Forall₂ (fun s s' => s.diagnostic.SamePlace s'.diagnostic ∧
    s'.suppression = s.suppression) c.result.suppressed other.result.suppressed
  fixes : ∃ fixes fixes', c.fixes = .ok fixes ∧ other.fixes = .ok fixes' ∧
    List.Forall₂ (fun fix fix' => fix'.path = fix.path ∧ fix'.fixed = returned fix.fixed)
      fixes fixes'

/-! ## Single files -/

section File

variable {c other : Compilation} (hconfig : other.config = c.config)
  (hfactory : other.factoryAvailable = c.factoryAvailable) (language : Language) (path : String)
  {source : String} (h : '\r' ∉ source.toList)

theorem suppressions_returned (h : '\r' ∉ source.toList) :
    suppressions (Document.read language path (returned source)) =
      suppressions (Document.read language path source) :=
  Suppression.parse_returned path h

include h

theorem samePlace_diagnostic {f f' : Finding}
    (hf : f.site ∈ (Document.read language path source).sites)
    (hsame : Document.FindsSame language.withReturns language.asWritten f f') :
    (c.diagnostic (Document.read language path source) f).SamePlace
      (other.diagnostic (Document.read language path (returned source)) f') := by
  obtain ⟨hfirst, hlast⟩ := Document.samePositions_of_findsSame language path h hf hsame
  constructor
  case key => simp only [Diagnostic.key, diagnostic, hfirst]; rfl
  case file => rfl
  case line => exact congrArg Text.Position.line hfirst
  case endLine => exact congrArg Text.Position.line hlast
  case endColumn => exact congrArg Text.Position.column hlast

include hconfig hfactory

/-- The findings in the two files correspond. -/
theorem findings_returned : List.Forall₂
    (fun f f' => f ∈ c.findings (Document.read language path source) ∧
      f' ∈ c.findings (Document.read language path (returned source)) ∧
      Document.FindsSame language.withReturns language.asWritten f f')
    (c.findings (Document.read language path source))
    (other.findings (Document.read language path (returned source))) := by
  rw [findings_congr hconfig hfactory]
  exact Document.findings_forall₂ language path path (row_lexemes_returned language h) c.policy

theorem diagnostics_returned : List.Forall₂ Diagnostic.SamePlace
    ((c.findings (Document.read language path source)).map
      (c.diagnostic (Document.read language path source)))
    ((other.findings (Document.read language path (returned source))).map
      (other.diagnostic (Document.read language path (returned source)))) := by
  rw [List.forall₂_map_left_iff, List.forall₂_map_right_iff]
  refine (findings_returned hconfig hfactory language path h).imp fun f f' ⟨hf, _, hsame⟩ => ?_
  exact samePlace_diagnostic language path h (Document.of_mem_findings hf).1 hsame

theorem active_returned : List.Forall₂ Diagnostic.SamePlace
    (c.fileResult (Document.read language path source)).diagnostics
    (other.fileResult (Document.read language path (returned source))).diagnostics := by
  refine List.rel_filter ?_ (diagnostics_returned hconfig hfactory language path h)
  intro d d' hd
  rw [suppressions_returned language path h]
  simp only [Suppression.covers_congr _ hd.file hd.line]

theorem suppressed_returned : List.Forall₂ (fun s s' => s.diagnostic.SamePlace s'.diagnostic ∧
      s'.suppression = s.suppression)
    (c.fileResult (Document.read language path source)).suppressed
    (other.fileResult (Document.read language path (returned source))).suppressed := by
  refine List.rel_filterMap ?_ (diagnostics_returned hconfig hfactory language path h)
  intro d d' hd
  rw [suppressions_returned language path h]
  simp only [Suppression.covers_congr _ hd.file hd.line]
  cases (suppressions (Document.read language path source)).find? fun s => s.covers d with
  | none => exact .none
  | some s => exact .some ⟨hd, rfl⟩

theorem activeFindings_returned : List.Forall₂
    (fun f f' => f ∈ c.findings (Document.read language path source) ∧
      f' ∈ c.findings (Document.read language path (returned source)) ∧
      Document.FindsSame language.withReturns language.asWritten f f')
    (c.activeFindings (Document.read language path source))
    (other.activeFindings (Document.read language path (returned source))) := by
  refine List.rel_filter ?_ (findings_returned hconfig hfactory language path h)
  rintro f f' ⟨hf, _, hsame⟩
  have hd : (c.diagnostic (Document.read language path source) f).SamePlace
      (other.diagnostic (Document.read language path (returned source)) f') :=
    samePlace_diagnostic language path h (Document.of_mem_findings hf).1 hsame
  dsimp only
  rw [suppressions_returned language path h]
  simp only [Suppression.covers_congr _ hd.file hd.line]

/-- The fixed text gets the carriage returns. -/
theorem fileFix_returned (hunmarked : c.config.factory.IsUnmarked) :
    ∃ fix fix', c.fileFix (Document.read language path source) = .ok fix ∧
      other.fileFix (Document.read language path (returned source)) = .ok fix' ∧
      fix'.path = fix.path ∧ fix'.fixed = returned fix.fixed := by
  have hactive := activeFindings_returned hconfig hfactory language path h
  have hedits := Document.edits_returned language path h hunmarked hactive
  have hfits : ∀ e ∈ (Document.read language path source).edits c.config.factory
      (c.activeFindings (Document.read language path source)), e.FitsIn 0 source.toList :=
    fun e he => Document.fitsIn_of_mem_edits
      (fun f hf => (List.mem_filter.1 hf).1) he
  obtain ⟨fixed, hfixed, hfixed'⟩ := Edit.apply_returned hedits hfits (pairwise_keepDisjoint _)
    (pairwise_keepDisjoint _)
  have hsource : (Document.read language path source).source = source := rfl
  have hsource' : (Document.read language path (returned source)).source = returned source := rfl
  rw [fileFix, fileFix, hconfig, hsource, hsource', hfixed, hfixed']
  exact ⟨_, _, rfl, rfl, rfl, rfl⟩

end File

/-! ## All files -/

/-- Whether the factory exists does not depend on line ends. -/
theorem factoryAvailable_returned (config : Config) {sources : List (String × String)}
    (h : ∀ file ∈ sources, '\r' ∉ file.2.toList) :
    (ofSources config (sources.map returnedFile)).factoryAvailable =
      (ofSources config sources).factoryAvailable := by
  refine congrArg (config.assumeFactoryAvailable || ·) ?_
  refine (Language.any_eq_of_forall₂ (fun {doc doc'} hdoc => ?_) (files_forall₂ config h)).symm
  obtain ⟨language, path, source, hsource, rfl, rfl⟩ := hdoc
  exact (Document.declaresFactory_eq_of_respelled language path path
    (row_lexemes_returned language hsource) _).symm

/-- Under a valid configuration, sources whose lines end with carriage return and line feed are
reported and fixed as the ones with plain line feeds. -/
theorem sameButReturns_ofSources (config : Config) (sources : List (String × String))
    (hvalid : config.error? = none) (h : ∀ file ∈ sources, '\r' ∉ file.2.toList) :
    SameButReturns (ofSources config sources) (ofSources config (sources.map returnedFile)) := by
  have hfiles := files_forall₂ config h
  have hfactory := factoryAvailable_returned config h
  have hconfig : (ofSources config (sources.map returnedFile)).config =
      (ofSources config sources).config := rfl
  have hunmarked : (ofSources config sources).config.factory.IsUnmarked :=
    Config.isUnmarked_of_error?_eq_none hvalid
  constructor
  case diagnostics =>
    rw [result_eq, result_eq]
    refine forall₂_flatMap ?_ hfiles
    rintro _ _ ⟨language, path, source, hsource, rfl, rfl⟩
    exact active_returned hconfig hfactory language path hsource
  case suppressed =>
    rw [result_eq, result_eq]
    refine forall₂_flatMap ?_ hfiles
    rintro _ _ ⟨language, path, source, hsource, rfl, rfl⟩
    exact suppressed_returned hconfig hfactory language path hsource
  case fixes =>
    refine exists_mapM_eq_ok_of_forall₂ ?_ hfiles
    rintro _ _ ⟨language, path, source, hsource, rfl, rfl⟩
    exact fileFix_returned hconfig hfactory language path hsource hunmarked

/-- A file in either language. In one of them an allocation is silenced from the line above, behind
a string over two lines; in the other one it is continued on the next line. -/
def manyLines : List (String × String) := [
  ("a.cs", "var s = @\"\n\";\n// emptycheck:ignore CA1825\nvar a = new int[] \x7b\x7d;"),
  ("b.vb", "Dim a = _\n  New Integer() \x7b\x7d")]

theorem sameButReturns_manyLines : Config.standard.error? = none ∧
    (∀ file ∈ manyLines, '\r' ∉ file.2.toList) ∧
    ((manyLines.filterMap documentOf?).map fun doc =>
      (((ofSources .standard manyLines).fileResult doc).diagnostics.length,
        ((ofSources .standard manyLines).fileResult doc).suppressed.length)) = [(0, 1), (1, 0)] ∧
    SameButReturns (ofSources .standard manyLines)
      (ofSources .standard (manyLines.map returnedFile)) :=
  have hvalid : Config.standard.error? = none := by decide
  have hplain : ∀ file ∈ manyLines, '\r' ∉ file.2.toList := by decide
  ⟨hvalid, hplain, by decide +kernel, sameButReturns_ofSources .standard manyLines hvalid hplain⟩

end Compilation

end ZeroAlloc

import Mathlib.Algebra.BigOperators.Group.List.Basic
import Mathlib.Algebra.Ring.Nat
import Mathlib.Data.List.Nodup
import ZeroAlloc.Proofs.Compilation.Fixes
import ZeroAlloc.Proofs.Document.WellFormed
import ZeroAlloc.Proofs.Suppression
set_option autoImplicit false

/-! # The files of a compilation

Files are coupled by one bit, whether the factory exists. Everything else about a file is its own,
and the outcome puts the files one behind the other in the order of their paths. So the order of the
sources is of no account, the reports are sorted, and a further file changes nothing about the
others as long as it does not bring the factory (`hasIndependentFiles`). -/

namespace ZeroAlloc

/-! ## Outcomes of several files -/

/-- The outcomes of files, one behind the other. -/
theorem DetectionResult.foldl_merge (r : DetectionResult) (rs : List DetectionResult) :
    rs.foldl merge r = r.merge
      ⟨rs.flatMap diagnostics, rs.flatMap suppressed, (rs.map scanned).sum⟩ := by
  induction rs generalizing r with
  | nil => exact (merge_empty r).symm
  | cons s rs ih => simp [ih, merge, Nat.add_assoc]

/-- What is picked by its origin out of a row of pieces comes from the pieces of that origin. -/
theorem filter_flatMap_of_origin {α β : Type} {f : α → List β} {p : β → Bool} {q : α → Bool}
    {xs : List α} (h : ∀ x ∈ xs, ∀ y ∈ f x, p y = q x) :
    (xs.flatMap f).filter p = (xs.filter q).flatMap f := by
  induction xs with
  | nil => rfl
  | cons x xs ih =>
    have hx := h x List.mem_cons_self
    have hxs := ih fun y hy => h y (List.mem_cons_of_mem x hy)
    by_cases hq : q x = true
    · have hall : (f x).filter p = f x :=
        List.filter_eq_self.2 fun y hy => (hx y hy).trans hq
      simp [hq, hall, hxs]
    · have hnone : (f x).filter p = [] :=
        List.filter_eq_nil_iff.2 fun y hy => by rw [hx y hy]; exact hq
      simp [hq, hnone, hxs]

/-- Steps that succeed give their outcomes on a part of the row too. -/
theorem mapM_filter_eq_ok {α β ε : Type} {f : α → Except ε β} {p : β → Bool} {q : α → Bool}
    {xs : List α} {ys : List β} (h : xs.mapM f = .ok ys)
    (hpq : ∀ x y, f x = .ok y → p y = q x) : (xs.filter q).mapM f = .ok (ys.filter p) := by
  induction xs generalizing ys with
  | nil =>
    cases h
    rfl
  | cons x xs ih =>
    rw [List.mapM_cons] at h
    cases hx : f x with
    | error e => simp [hx, bind, Except.bind] at h
    | ok y =>
      cases hxs : xs.mapM f with
      | error e => simp [hx, hxs, bind, Except.bind] at h
      | ok zs =>
        obtain rfl : y :: zs = ys := by
          simpa [hx, hxs, bind, Except.bind, pure, Except.pure] using h
        have hy := hpq x y hx
        by_cases hq : q x = true
        · rw [List.filter_cons_of_pos hq, List.filter_cons_of_pos (hy.trans hq), List.mapM_cons,
            hx, ih hxs]
          rfl
        · rw [List.filter_cons_of_neg hq, List.filter_cons_of_neg (by rwa [hy]), ih hxs]

namespace Compilation

/-- The outcome is that of the files, one behind the other. -/
theorem result_eq (c : Compilation) : c.result =
    ⟨c.files.flatMap fun doc => (c.fileResult doc).diagnostics,
      c.files.flatMap fun doc => (c.fileResult doc).suppressed, c.files.length⟩ := by
  have hscanned (docs : List Document) :
      ((docs.map c.fileResult).map DetectionResult.scanned).sum = docs.length := by
    induction docs with
    | nil => rfl
    | cons doc docs ih =>
      have hone : (c.fileResult doc).scanned = 1 := rfl
      rw [List.map_cons, List.map_cons, List.sum_cons, ih, hone, List.length_cons, Nat.add_comm]
  rw [result, DetectionResult.foldl_merge, DetectionResult.merge, hscanned]
  simp [DetectionResult.empty, List.flatMap_map]

/-! ## The order of files -/

/-- The reading of a source, if its language is known. -/
def documentOf? (file : String × String) : Option Document :=
  (languageOf? file.1).map fun language => Document.read language file.1 file.2

theorem path_of_documentOf? {file : String × String} {doc : Document}
    (h : documentOf? file = some doc) : doc.path = file.1 := by
  obtain ⟨language, _, rfl⟩ := Option.map_eq_some_iff.1 h
  rfl

section Sources

variable (config : Config) (sources : List (String × String))

/-- The files are the readings of the sources. -/
theorem perm_files : (ofSources config sources).files.Perm (sources.filterMap documentOf?) :=
  List.mergeSort_perm _ _

/-- The files stand in the order of their paths. -/
theorem pairwise_path_files :
    (ofSources config sources).files.Pairwise fun a b => a.path ≤ b.path := by
  have hsorted : (ofSources config sources).files.Pairwise fun a b =>
      decide (a.path ≤ b.path) = true := by
    refine List.pairwise_mergeSort (fun a b c hab hbc => ?_) (fun a b => ?_) _
    · simp only [decide_eq_true_eq] at hab hbc ⊢
      exact String.le_trans hab hbc
    · simpa using String.le_total a.path b.path
  exact hsorted.imp of_decide_eq_true

variable {config sources}

/-- Sources with distinct paths have readings with distinct paths. -/
theorem nodup_path_readings (hdistinct : (sources.map Prod.fst).Nodup) :
    ((sources.filterMap documentOf?).map Document.path).Nodup := by
  rw [List.Nodup, List.pairwise_map] at hdistinct ⊢
  refine hdistinct.filterMap documentOf? fun a a' hne doc hdoc doc' hdoc' => ?_
  rwa [path_of_documentOf? hdoc, path_of_documentOf? hdoc']

/-- In the order of their paths, the readings of sources with distinct paths are the files. -/
theorem eq_files {docs : List Document} (hdistinct : (sources.map Prod.fst).Nodup)
    (hperm : docs.Perm (sources.filterMap documentOf?))
    (hsorted : docs.Pairwise fun a b => a.path ≤ b.path) :
    docs = (ofSources config sources).files := by
  have hfiles := perm_files config sources
  refine List.Perm.eq_of_pairwise (fun a b ha hb hab hba => ?_) hsorted
    (pairwise_path_files config sources) (hperm.trans hfiles.symm)
  exact List.inj_on_of_nodup_map (nodup_path_readings hdistinct) (hperm.mem_iff.1 ha)
    (hfiles.mem_iff.1 hb) (String.le_antisymm hab hba)

/-- The order of the sources does not matter. -/
theorem ofSources_perm (hdistinct : (sources.map Prod.fst).Nodup)
    {other : List (String × String)} (hperm : sources.Perm other) :
    ofSources config other = ofSources config sources := by
  have hfiles := (perm_files config other).trans (hperm.filterMap documentOf?).symm
  have heq : (ofSources config other).files = (ofSources config sources).files :=
    eq_files hdistinct hfiles (pairwise_path_files config other)
  calc ofSources config other
      = ⟨config, (ofSources config other).files⟩ := rfl
    _ = ⟨config, (ofSources config sources).files⟩ := by rw [heq]
    _ = ofSources config sources := rfl

theorem pairwise_path_lt_files (hdistinct : (sources.map Prod.fst).Nodup) :
    (ofSources config sources).files.Pairwise fun a b => a.path < b.path := by
  have hperm := (perm_files config sources).map Document.path
  have hnodup := hperm.nodup_iff.2 (nodup_path_readings hdistinct)
  rw [List.Nodup, List.pairwise_map] at hnodup
  refine ((pairwise_path_files config sources).and hnodup).imp fun {a b} h => ?_
  by_contra hlt
  exact h.2 (String.le_antisymm h.1 (String.not_lt.1 hlt))

/-- Files count once for each source that has a language. -/
theorem length_files : (ofSources config sources).files.length =
    sources.countP fun file => (languageOf? file.1).isSome := by
  rw [(perm_files config sources).length_eq, List.length_filterMap_eq_countP]
  simp [documentOf?]

end Sources

end Compilation

/-! ## The order of reports -/

/-- The order of reports: by file, and in a file by position. -/
def Diagnostic.Precedes (d other : Diagnostic) : Prop :=
  d.file < other.file ∨ d.file = other.file ∧
    Text.Position.Precedes ⟨d.line, d.column⟩ ⟨other.line, other.column⟩

namespace Suppression

/-- What is silenced is what some suppression covers, in the same order. -/
theorem map_diagnostic_suppressed (suppressions : List Suppression) (ds : List Diagnostic) :
    (suppressed suppressions ds).map SuppressedDiagnostic.diagnostic =
      ds.filter fun d => suppressions.any (·.covers d) := by
  induction ds with
  | nil => rfl
  | cons d ds ih =>
    rw [suppressed] at ih ⊢
    cases hfind : suppressions.find? (·.covers d) with
    | none =>
      have hnone : suppressions.any (·.covers d) = false := by simpa using hfind
      simp [hfind, hnone, ih]
    | some s =>
      have hany : suppressions.any (·.covers d) = true :=
        List.any_eq_true.2 ⟨s, List.mem_of_find?_eq_some hfind,
          by simpa using List.find?_some hfind⟩
      simp [hfind, hany, ih]

/-- Nothing is reported twice, and nothing is lost. -/
theorem length_active_add_suppressed (suppressions : List Suppression) (ds : List Diagnostic) :
    (active suppressions ds).length + (suppressed suppressions ds).length = ds.length := by
  have hsuppressed := congrArg List.length (map_diagnostic_suppressed suppressions ds)
  rw [List.length_map] at hsuppressed
  rw [hsuppressed, active, Nat.add_comm]
  exact (List.length_eq_length_filter_add _).symm

end Suppression

/-- What is kept of a row, looked at through a part that stays, is a part of the row. -/
theorem map_filterMap_sublist {α β γ : Type} {f : α → Option β} {g : β → γ} {k : α → γ}
    (h : ∀ x y, f x = some y → g y = k x) (xs : List α) :
    ((xs.filterMap f).map g).Sublist (xs.map k) := by
  induction xs with
  | nil => exact .slnil
  | cons x xs ih =>
    cases hx : f x with
    | none =>
      rw [List.filterMap_cons_none hx]
      exact ih.cons _
    | some y =>
      rw [List.filterMap_cons_some hx, List.map_cons, List.map_cons, h x y hx]
      exact ih.cons_cons _

namespace Document

/-- The findings are about sites of the document, in the order of the sites. -/
theorem map_site_findings_sublist (doc : Document) (policy : Policy) :
    ((doc.findings policy).map Finding.site).Sublist doc.sites := by
  unfold findings
  split
  · have hsites := List.zipIdx_map_fst 0 doc.sites
    conv => rhs; rw [← hsites]
    refine map_filterMap_sublist (fun p finding h => ?_) _
    dsimp only at h
    split at h
    · obtain ⟨argument, _, rfl⟩ := Option.map_eq_some_iff.1 h
      rfl
    · cases h
  · exact List.nil_sublist _

/-- The sites stand in the order of the positions at which they start. -/
theorem pairwise_first_sites (language : Language) (path source : String) :
    (read language path source).sites.Pairwise fun s other =>
      ((read language path source).siteSpan s).first.Precedes
        ((read language path source).siteSpan other).first := by
  refine (pairwise_span_sites language path source).imp_of_mem fun {s other} hs hother h => ?_
  obtain ⟨before, piece, behind, hcuts⟩ := (wellFormed_of_mem_sites hs).cutsOut
  obtain ⟨before', piece', behind', hcuts'⟩ := (wellFormed_of_mem_sites hother).cutsOut
  refine hcuts.first_precedes hcuts' ?_
  rcases h with hlt | ⟨heq, _⟩
  · exact Nat.le_of_lt hlt
  · exact Nat.le_of_eq heq

end Document

namespace Compilation

variable {c : Compilation} {doc : Document} {sources : List (String × String)}

theorem file_of_mem_diagnostics {d : Diagnostic}
    (h : d ∈ (c.findings doc).map (c.diagnostic doc)) : d.file = doc.path := by
  obtain ⟨finding, _, rfl⟩ := List.mem_map.1 h
  rfl

/-- The reports on a file stand in the order of their positions. -/
theorem pairwise_diagnostics (hread : IsReadFrom sources doc) :
    ((c.findings doc).map (c.diagnostic doc)).Pairwise Diagnostic.Precedes := by
  have hsites := Document.pairwise_first_sites doc.language doc.path doc.source
  rw [← hread.read] at hsites
  have hfindings := hsites.sublist (doc.map_site_findings_sublist c.policy)
  rw [List.pairwise_map] at hfindings ⊢
  exact hfindings.imp fun h => .inr ⟨rfl, h⟩

/-- Reports on the files, some of them left out, stand in the order of reports. -/
theorem pairwise_flatMap_files {config : Config} (hdistinct : (sources.map Prod.fst).Nodup)
    (reports : Document → List Diagnostic)
    (h : ∀ doc ∈ (ofSources config sources).files, (reports doc).Sublist
      (((ofSources config sources).findings doc).map
        ((ofSources config sources).diagnostic doc))) :
    ((ofSources config sources).files.flatMap reports).Pairwise Diagnostic.Precedes := by
  rw [List.pairwise_flatMap]
  constructor
  · intro doc hdoc
    exact (pairwise_diagnostics (isReadFrom_of_mem_files hdoc)).sublist (h doc hdoc)
  · refine (pairwise_path_lt_files hdistinct).imp_of_mem fun {a b} ha hb hlt d hd e he => ?_
    left
    rwa [file_of_mem_diagnostics ((h a ha).mem hd), file_of_mem_diagnostics ((h b hb).mem he)]

/-! ## Further files -/

/-- Of the files that are examined together with a further one, those that are not at its path are
reported and fixed as without it. -/
structure IsUnchangedBy (c larger : Compilation) (path : String) : Prop where
  diagnostics : larger.result.diagnostics.filter (·.file ≠ path) = c.result.diagnostics
  suppressed : larger.result.suppressed.filter (·.diagnostic.file ≠ path) = c.result.suppressed
  fixes : ∃ fixes more, c.fixes = .ok fixes ∧ larger.fixes = .ok more ∧
    more.filter (·.path ≠ path) = fixes

/-- There is nothing to report and nothing to fix. -/
structure IsSilent (c : Compilation) : Prop where
  diagnostics : c.result.diagnostics = []
  suppressed : c.result.suppressed = []
  fixes : ∃ fixes, c.fixes = .ok fixes ∧ ∀ fix ∈ fixes, fix.edits = []

theorem findings_eq_nil (hfactory : c.factoryAvailable = false) (doc : Document) :
    c.findings doc = [] := by
  simp [findings, Document.findings, policy, Config.policy, hfactory]

/-- Without the factory there is nothing to do. -/
theorem isSilent_of_unavailable {config : Config}
    (hfactory : (ofSources config sources).factoryAvailable = false) :
    (ofSources config sources).IsSilent where
  diagnostics := by
    simp [result_eq, fileResult, findings_eq_nil hfactory, Suppression.active]
  suppressed := by
    simp [result_eq, fileResult, findings_eq_nil hfactory, Suppression.suppressed]
  fixes := by
    obtain ⟨fixes, hfixes, hall⟩ := exists_forall₂_fixes config sources
      (R := fun _ fix => fix.edits = []) fun doc fix _ _ hfixes => by
        rw [hfixes.edits, activeFindings, findings_eq_nil hfactory]
        rfl
    refine ⟨fixes, hfixes, fun fix hfix => ?_⟩
    obtain ⟨_, _, hedits⟩ := exists_mem_of_forall₂ hall.flip fix hfix
    exact hedits

theorem path_of_fileFix {fix : FileFix} (h : c.fileFix doc = .ok fix) : fix.path = doc.path := by
  unfold fileFix at h
  dsimp only at h
  split at h <;> cases h
  rfl

section Coupling

variable {larger : Compilation} (hconfig : larger.config = c.config)
  (hfactory : larger.factoryAvailable = c.factoryAvailable)
include hconfig hfactory

theorem findings_congr (doc : Document) : larger.findings doc = c.findings doc := by
  rw [findings, findings, policy, policy, hconfig, hfactory]

/-- The outcome for a file depends on the other files by the factory alone. -/
theorem fileResult_congr (doc : Document) : larger.fileResult doc = c.fileResult doc := by
  have hdiagnostic : larger.diagnostic doc = c.diagnostic doc := by
    funext finding
    rw [diagnostic, diagnostic, hconfig]
  simp only [fileResult, findings_congr hconfig hfactory, hdiagnostic]

theorem fileFix_congr (doc : Document) : larger.fileFix doc = c.fileFix doc := by
  have hdiagnostic : larger.diagnostic doc = c.diagnostic doc := by
    funext finding
    rw [diagnostic, diagnostic, hconfig]
  simp only [fileFix, activeFindings, findings_congr hconfig hfactory, hdiagnostic, hconfig]

/-- As long as it does not bring the factory, a further file changes nothing about the others. -/
theorem isUnchangedBy {path : String}
    (hfiles : larger.files.filter (·.path ≠ path) = c.files)
    (hfixes : ∃ more, larger.fixes = .ok more) : c.IsUnchangedBy larger path where
  diagnostics := by
    rw [result_eq, result_eq, ← hfiles]
    dsimp only
    rw [filter_flatMap_of_origin (q := fun doc => doc.path ≠ path)]
    · simp only [fileResult_congr hconfig hfactory]
    · intro doc _ d hd
      rw [file_of_mem_diagnostics (List.mem_of_mem_filter hd)]
  suppressed := by
    rw [result_eq, result_eq, ← hfiles]
    dsimp only
    rw [filter_flatMap_of_origin (q := fun doc => doc.path ≠ path)]
    · simp only [fileResult_congr hconfig hfactory]
    · intro doc _ s hs
      have hmem := List.mem_map_of_mem (f := SuppressedDiagnostic.diagnostic) hs
      rw [fileResult, Suppression.map_diagnostic_suppressed] at hmem
      rw [file_of_mem_diagnostics (List.mem_of_mem_filter hmem)]
  fixes := by
    obtain ⟨more, hmore⟩ := hfixes
    refine ⟨_, more, ?_, hmore, rfl⟩
    have hpart := mapM_filter_eq_ok (p := fun fix => decide (fix.path ≠ path))
      (q := fun doc => decide (doc.path ≠ path)) hmore fun doc fix h => by
        rw [path_of_fileFix h]
    rw [hfiles] at hpart
    have hsame : c.fileFix = larger.fileFix :=
      funext fun doc => (fileFix_congr hconfig hfactory doc).symm
    rw [fixes, hsame, hpart]

end Coupling

/-- A further file can only bring the factory. -/
theorem factoryAvailable_mono {config : Config} {more : List (String × String)}
    (h : sources.Sublist more) (hfactory : (ofSources config sources).factoryAvailable = true) :
    (ofSources config more).factoryAvailable = true := by
  unfold factoryAvailable at hfactory ⊢
  rw [Bool.or_eq_true, List.any_eq_true] at hfactory ⊢
  refine hfactory.imp_right ?_
  rintro ⟨doc, hdoc, hdeclares⟩
  have hmem := (h.filterMap documentOf?).mem ((perm_files config sources).mem_iff.1 hdoc)
  exact ⟨doc, (perm_files config more).mem_iff.2 hmem, hdeclares⟩

/-- Without the further file, the files are what they were. -/
theorem filter_files_cons {config : Config} {path source : String}
    (hdistinct : (sources.map Prod.fst).Nodup) (hnew : path ∉ sources.map Prod.fst) :
    (ofSources config ((path, source) :: sources)).files.filter (·.path ≠ path) =
      (ofSources config sources).files := by
  refine eq_files hdistinct ?_ ((pairwise_path_files config _).filter _)
  have hothers : (sources.filterMap documentOf?).filter (·.path ≠ path) =
      sources.filterMap documentOf? := by
    refine List.filter_eq_self.2 fun doc hdoc => ?_
    obtain ⟨file, hfile, hread⟩ := List.mem_filterMap.1 hdoc
    rw [path_of_documentOf? hread]
    simpa using fun h : file.1 = path => hnew (h ▸ List.mem_map_of_mem hfile)
  have hperm := (perm_files config ((path, source) :: sources)).filter (·.path ≠ path)
  cases hread : documentOf? (path, source) with
  | none =>
    rwa [List.filterMap_cons_none hread, hothers] at hperm
  | some doc =>
    have hpath : doc.path = path := path_of_documentOf? hread
    rwa [List.filterMap_cons_some hread, List.filter_cons_of_neg (by simp [hpath]),
      hothers] at hperm

/-! ## Independence -/

/-- Files of one compilation have nothing to do with each other, but for the factory. -/
structure HasIndependentFiles (config : Config) (sources : List (String × String)) : Prop where
  /-- The order in which the sources are given is of no account. -/
  unordered : ∀ other, sources.Perm other → ofSources config other = ofSources config sources
  diagnostics : (ofSources config sources).result.diagnostics.Pairwise Diagnostic.Precedes
  suppressed : ((ofSources config sources).result.suppressed.map
    SuppressedDiagnostic.diagnostic).Pairwise Diagnostic.Precedes
  /-- Every finding is reported once, as active or as silenced. -/
  counted : (ofSources config sources).result.diagnostics.length +
      (ofSources config sources).result.suppressed.length =
    ((ofSources config sources).files.map fun doc =>
      ((ofSources config sources).findings doc).length).sum
  scanned : (ofSources config sources).result.scanned =
    sources.countP fun file => (languageOf? file.1).isSome
  /-- A further file does not touch the others, unless it makes the factory available; and then
  there was nothing to report or to fix before. -/
  further : ∀ path source, path ∉ sources.map Prod.fst →
    ((ofSources config ((path, source) :: sources)).factoryAvailable =
        (ofSources config sources).factoryAvailable →
      (ofSources config sources).IsUnchangedBy
        (ofSources config ((path, source) :: sources)) path) ∧
    ((ofSources config ((path, source) :: sources)).factoryAvailable ≠
        (ofSources config sources).factoryAvailable →
      (ofSources config sources).factoryAvailable = false ∧
        (ofSources config ((path, source) :: sources)).factoryAvailable = true ∧
        (ofSources config sources).IsSilent)

/-- Sources with distinct paths, in whatever languages, are examined independently. -/
theorem hasIndependentFiles (config : Config) (sources : List (String × String))
    (hdistinct : (sources.map Prod.fst).Nodup) : HasIndependentFiles config sources where
  unordered other hperm := ofSources_perm hdistinct hperm
  diagnostics := by
    rw [result_eq]
    exact pairwise_flatMap_files hdistinct _ fun doc _ => List.filter_sublist
  suppressed := by
    rw [result_eq]
    dsimp only
    rw [List.map_flatMap]
    refine pairwise_flatMap_files hdistinct _ fun doc _ => ?_
    rw [fileResult, Suppression.map_diagnostic_suppressed]
    exact List.filter_sublist
  counted := by
    rw [result_eq]
    dsimp only
    rw [List.length_flatMap, List.length_flatMap, ← List.sum_map_add]
    congr 2
    funext doc
    rw [fileResult, Suppression.length_active_add_suppressed, List.length_map]
  scanned := by
    rw [result_eq]
    exact length_files
  further path source hnew := by
    constructor
    · intro hfactory
      obtain ⟨more, hmore, _⟩ := exists_forall₂_fixes config ((path, source) :: sources)
        (R := fun _ _ => True) fun _ _ _ _ _ => trivial
      have hconfig : (ofSources config ((path, source) :: sources)).config =
          (ofSources config sources).config := rfl
      exact isUnchangedBy hconfig hfactory (filter_files_cons hdistinct hnew) ⟨more, hmore⟩
    · intro hfactory
      cases h : (ofSources config sources).factoryAvailable with
      | true =>
        rw [h] at hfactory
        exact absurd (factoryAvailable_mono (List.sublist_cons_self _ _) h) hfactory
      | false =>
        rw [h] at hfactory
        exact ⟨rfl, eq_true_of_ne_false hfactory, isSilent_of_unavailable h⟩

/-- A file in either language, each with an allocation of length zero. -/
def twoFiles : List (String × String) := [
  ("b.vb", "Dim a = New Integer() \x7b\x7d"),
  ("a.cs", "var a = new int[0];")]

theorem hasIndependentFiles_twoFiles : (twoFiles.map Prod.fst).Nodup ∧
    (twoFiles.filterMap documentOf?).map (·.sites.length) = [1, 1] ∧
    HasIndependentFiles .standard twoFiles :=
  ⟨by decide, by decide +kernel, hasIndependentFiles .standard twoFiles (by decide)⟩

end Compilation

end ZeroAlloc

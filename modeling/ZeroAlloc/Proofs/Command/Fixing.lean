import ZeroAlloc.Proofs.Compilation.Changed
import ZeroAlloc.Proofs.Compilation.Repetition
import ZeroAlloc.Proofs.Config.Validation
import ZeroAlloc.Proofs.Workspace
set_option autoImplicit false

/-! # Reporting and fixing a workspace

The commands that report, print and write examine the same files, so they agree
(`exists_isFixedAsReported`): the files that are reported are changed, and no others, each to the
text that is printed for it. -/

namespace ZeroAlloc

open Compilation (IsReadFrom IsFixOf)

/-! ## Configurations -/

theorem Workspace.error?_eq_none_of_readConfig {w : Workspace} {path : String} {config : Config}
    (h : w.readConfig path = .ok config) : config.error? = none := by
  unfold readConfig at h
  split at h
  · cases h
  · split at h
    · cases h
    · split at h
      · cases h
      · cases h
        assumption

theorem Config.error?_standard : Config.standard.error? = none := by
  decide +kernel

/-- What is examined is examined under a valid configuration. -/
theorem Workspace.error?_eq_none_of_examine {w : Workspace} {path : String}
    {config : Option String} {e : Examination} (h : w.examine path config = .ok e) :
    e.config.error? = none := by
  unfold examine at h
  split at h
  · cases h
  · split at h
    · cases h
      exact Config.error?_standard
    · split at h
      · cases h
        exact error?_eq_none_of_readConfig ‹_›
      · cases h

theorem Config.isNamed_of_error?_eq_none {config : Config} (h : config.error? = none) :
    config.factory.IsNamed :=
  isNameChar_of_error?_eq_none h

/-! ## Fixes of a compilation -/

namespace Compilation

/-- The fix of a file, which it changes if and only if the file is reported. -/
structure IsReportedFixOf (c : Compilation) (doc : Document) (fix : FileFix) : Prop where
  path : fix.path = doc.path
  isUnchanged_iff : fix.isUnchanged = true ↔ (c.fileResult doc).diagnostics = []
  fixed_ne : fix.isUnchanged = false → fix.fixed ≠ doc.source

theorem isReportedFixOf {c : Compilation} {doc : Document} {fix : FileFix}
    {sources : List (String × String)} (hfactory : c.config.factory.IsNamed)
    (hread : IsReadFrom sources doc) (hfix : c.IsFixOf doc fix) : c.IsReportedFixOf doc fix where
  path := hfix.path
  isUnchanged_iff := by
    rw [FileFix.isUnchanged, List.isEmpty_iff]
    exact (agrees_of_fix hread hfix.edits).edits_eq_nil_iff
  fixed_ne := by
    intro hchanged
    refine hfix.fixed_ne_source hfactory hread fun hnil => ?_
    rw [FileFix.isUnchanged, hnil] at hchanged
    cases hchanged

end Compilation

/-! ## Examined files -/

/-- The report on an examination is about a path if some diagnostic is that no suppression
silences. -/
def Examination.Reports (e : Examination) (w : Workspace) (path : String) : Prop :=
  ∃ d ∈ (e.compilation w).result.diagnostics, d.file = path

/-- A text as a dry run prints it: under the path of its file, with a line feed at the end. -/
def printedUnder (path text : String) : String :=
  "// " ++ path ++ "\n" ++ text ++ (if text.toList.getLast? = some '\n' then "" else "\n")

theorem FileFix.preview_eq (fix : FileFix) : fix.preview = printedUnder fix.path fix.fixed := by
  simp only [preview, printedUnder, beq_iff_eq]

/-- What the commands make of the files that are examined: a file is changed if it is reported, to
the text that is printed for it. -/
structure Examination.IsFixedAsReported (e : Examination) (w : Workspace) (lint dry fixed : Outcome)
    (printed : List (String × String)) : Prop where
  /-- Reporting changes nothing. -/
  lint_workspace : lint.workspace = w
  /-- The status of the report says whether there is a file to change. -/
  lint_status : lint.status = if printed = [] then 0 else 1
  /-- Printing changes nothing. -/
  dry_workspace : dry.workspace = w
  dry_output : dry.output = String.join (printed.map fun f => printedUnder f.1 f.2)
  /-- Fixing brings no files or directories and takes none away. -/
  same : w.IsSameTree fixed.workspace
  /-- No file is printed twice. -/
  distinct : (printed.map Prod.fst).Nodup
  /-- What is printed is reported. -/
  reported : ∀ f ∈ printed, e.Reports w f.1
  /-- What is reported is a file. -/
  isFile : ∀ path, e.Reports w path → ∃ p, w.isFile p = true ∧ p.text = path
  /-- A file that is reported is changed to the text that is printed for it. -/
  changed : ∀ p, w.isFile p = true → e.Reports w p.text →
    ∃ text, (p.text, text) ∈ printed ∧ fixed.workspace.content? p = some (.text text) ∧
      w.content? p ≠ some (.text text)
  /-- Every other file is as it was. -/
  kept : ∀ p, ¬e.Reports w p.text → fixed.workspace.content? p = w.content? p

namespace Examination

variable {e : Examination} {w : Workspace}

/-- An examined text is that of a file. -/
theorem exists_mem_of_mem_sources {path source : String} (h : (path, source) ∈ e.sources w) :
    ∃ p, (p, FileContent.text source) ∈ w.files ∧ p.text = path := by
  obtain ⟨⟨p, content⟩, hfile, hsource⟩ := List.mem_filterMap.1 h
  dsimp only at hsource
  split at hsource
  · cases content with
    | text s =>
      cases hsource
      exact ⟨p, hfile, rfl⟩
    | binary bytes => cases hsource
  · cases hsource

theorem nodup_path_sources (hw : w.IsFileTree) : ((e.sources w).map Prod.fst).Nodup := by
  have hpaths : ((e.sources w).map Prod.fst).Sublist (w.files.map fun f => f.1.text) := by
    refine map_filterMap_sublist (fun f source h => ?_) _
    dsimp only at h
    split at h
    · obtain ⟨text, -, rfl⟩ := Option.map_eq_some_iff.1 h
      rfl
    · cases h
  exact hw.nodup_text.sublist hpaths

/-- The files that are examined hold their sources. -/
theorem exists_content?_of_mem_files (hw : w.IsFileTree) {doc : Document}
    (h : doc ∈ (e.compilation w).files) :
    ∃ p, w.content? p = some (.text doc.source) ∧ p.text = doc.path := by
  obtain ⟨p, hp, hpath⟩ :=
    exists_mem_of_mem_sources (Compilation.isReadFrom_of_mem_files h).mem
  exact ⟨p, hw.content?_of_mem hp, hpath⟩

/-- A path is reported if the file with the path has something to report. -/
theorem reports_iff_exists_file {path : String} :
    e.Reports w path ↔ ∃ doc ∈ (e.compilation w).files,
      doc.path = path ∧ ((e.compilation w).fileResult doc).diagnostics ≠ [] := by
  have hfile {doc : Document} {d : Diagnostic}
      (hd : d ∈ ((e.compilation w).fileResult doc).diagnostics) : d.file = doc.path :=
    Compilation.file_of_mem_diagnostics (List.mem_filter.1 hd).1
  simp only [Reports, Compilation.result_eq, List.mem_flatMap]
  constructor
  · rintro ⟨d, ⟨doc, hdoc, hd⟩, rfl⟩
    exact ⟨doc, hdoc, (hfile hd).symm, List.ne_nil_of_mem hd⟩
  · rintro ⟨doc, hdoc, rfl, hne⟩
    obtain ⟨d, hd⟩ := List.exists_mem_of_ne_nil _ hne
    exact ⟨d, ⟨doc, hdoc, hd⟩, hfile hd⟩

/-- All files are fixed, and what is changed is what is reported. -/
theorem exists_reportedFixes (hvalid : e.config.error? = none) (w : Workspace) :
    ∃ fixes, (e.compilation w).fixes = .ok fixes ∧
      List.Forall₂ (e.compilation w).IsReportedFixOf (e.compilation w).files fixes := by
  exact Compilation.exists_forall₂_fixes _ _ fun _ _ hread _ hfixes =>
    Compilation.isReportedFixOf (Config.isNamed_of_error?_eq_none hvalid) hread hfixes

section Fixes

variable {fixes : List FileFix}
  (hall : List.Forall₂ (e.compilation w).IsReportedFixOf (e.compilation w).files fixes)
include hall

theorem nodup_path_fixes (hw : w.IsFileTree) : (fixes.map FileFix.path).Nodup := by
  rw [Compilation.map_eq_map_of_forall₂ hall fun doc fix _ h => h.path]
  have hdistinct : ((e.sources w).map Prod.fst).Nodup := nodup_path_sources hw
  have hsorted : (e.compilation w).files.Pairwise fun a b => a.path < b.path :=
    Compilation.pairwise_path_lt_files hdistinct
  rw [List.Nodup, List.pairwise_map]
  refine hsorted.imp fun h hsame => ?_
  rw [hsame] at h
  exact String.lt_irrefl _ h

/-- Every fix is that of an examined file. -/
theorem exists_file_of_mem_fixes {fix : FileFix} (h : fix ∈ fixes) :
    ∃ doc ∈ (e.compilation w).files, (e.compilation w).IsReportedFixOf doc fix :=
  exists_mem_of_forall₂ hall.flip fix h

theorem reports_iff_exists_fix {path : String} :
    e.Reports w path ↔ ∃ fix ∈ fixes, fix.path = path ∧ fix.isUnchanged = false := by
  rw [reports_iff_exists_file]
  constructor
  · rintro ⟨doc, hdoc, rfl, hne⟩
    obtain ⟨fix, hfix, h⟩ := exists_mem_of_forall₂ hall doc hdoc
    exact ⟨fix, hfix, h.path, Bool.eq_false_iff.2 fun hsame => hne (h.isUnchanged_iff.1 hsame)⟩
  · rintro ⟨fix, hfix, rfl, hchanged⟩
    obtain ⟨doc, hdoc, h⟩ := exists_file_of_mem_fixes hall hfix
    refine ⟨doc, hdoc, h.path.symm, fun hnil => ?_⟩
    rw [h.isUnchanged_iff.2 hnil] at hchanged
    cases hchanged

/-- What is printed is reported, and what is reported is printed. -/
theorem reports_iff_mem_changed {path : String} : e.Reports w path ↔
    path ∈ (Compilation.fixedSources (fixes.filter (!·.isUnchanged))).map Prod.fst := by
  rw [reports_iff_exists_fix hall, Compilation.fixedSources, List.map_map, List.mem_map]
  constructor
  · rintro ⟨fix, hfix, hpath, hchanged⟩
    exact ⟨fix, List.mem_filter.2 ⟨hfix, by simp [hchanged]⟩, hpath⟩
  · rintro ⟨fix, hfix, hpath⟩
    obtain ⟨hfix, hchanged⟩ := List.mem_filter.1 hfix
    exact ⟨fix, hfix, hpath, by simpa using hchanged⟩

theorem fixed_of_mem_fixes (hw : w.IsFileTree) {fix : FileFix} (hfix : fix ∈ fixes)
    (hchanged : fix.isUnchanged = false) {p : Place} (hp : p.IsNamed) (hpath : p.text = fix.path) :
    (fixes.foldl Workspace.applyFix w).content? p = some (.text fix.fixed) ∧
      w.content? p ≠ some (.text fix.fixed) := by
  obtain ⟨doc, hdoc, h⟩ := exists_file_of_mem_fixes hall hfix
  obtain ⟨q, hfile, hq⟩ := exists_content?_of_mem_files hw hdoc
  have hplace : q = p := by
    refine Place.eq_of_text_eq (hw.named _ (Workspace.mem_files_of_content? hfile)) hp ?_
    rw [hq, hpath, h.path]
  subst hplace
  refine ⟨Workspace.content?_foldl_applyFix_of_mem (nodup_path_fixes hall hw) hfix hchanged hpath
    hfile, fun hsame => ?_⟩
  rw [hfile, Option.some_inj, FileContent.text.injEq] at hsame
  exact h.fixed_ne hchanged hsame.symm

theorem kept_of_not_reports {p : Place} (h : ¬e.Reports w p.text) :
    (fixes.foldl Workspace.applyFix w).content? p = w.content? p := by
  refine Workspace.content?_foldl_applyFix_of_forall fun fix hfix hchanged hpath => h ?_
  exact (reports_iff_exists_fix hall).2 ⟨fix, hfix, hpath.symm, hchanged⟩

/-- The report is clean if every fix leaves its file as it is. -/
theorem isClean_iff_fixes : (e.compilation w).result.isClean = true ↔
    Compilation.fixedSources (fixes.filter (!·.isUnchanged)) = [] := by
  rw [Compilation.isClean_iff, Compilation.fixedSources, List.map_eq_nil_iff,
    List.filter_eq_nil_iff]
  refine Compilation.forall_mem_iff_of_forall₂ hall fun doc fix h => ?_
  rw [← h.isUnchanged_iff]
  simp

end Fixes

/-- Without files there is nothing to report. -/
theorem isClean_of_scanned_eq_zero {c : Compilation} (h : c.result.scanned = 0) :
    c.result.isClean = true := by
  rw [Compilation.result_eq] at h
  rw [Compilation.isClean_iff, List.length_eq_zero_iff.1 h]
  exact fun doc hdoc => absurd hdoc List.not_mem_nil

end Examination

/-! ## Commands -/

section Lint

variable {w : Workspace} {options : LintOptions} {e : Examination} {format : ReportFormat}
  (hexamine : w.examine options.path options.config = .ok e)
  (hformat : ReportFormat.ofName? options.format = some format)
include hexamine hformat

theorem LintOptions.workspace_run (color : Bool) : (options.run color w).workspace = w := by
  simp only [run, hformat, hexamine]
  split <;> rfl

/-- The status of a report says whether it is clean. -/
theorem LintOptions.status_run (color : Bool) :
    (options.run color w).status = if (e.compilation w).result.isClean then 0 else 1 := by
  simp only [run, hformat, hexamine]
  split
  next hnone => rw [Examination.isClean_of_scanned_eq_zero hnone, if_pos rfl]
  next => rfl

theorem LintOptions.output_run (hscanned : (e.compilation w).result.scanned ≠ 0) (color : Bool) :
    (options.run color w).output = e.report color format options (e.compilation w).result := by
  simp only [run, hformat, hexamine]
  rw [if_neg hscanned]

end Lint

section Fix

variable {w : Workspace} {path : String} {config : Option String} {e : Examination}
  {fixes : List FileFix} (hexamine : w.examine path config = .ok e)
  (hfixes : (e.compilation w).fixes = .ok fixes)
include hexamine hfixes

theorem FixOptions.run_dry (color : Bool) : FixOptions.run ⟨path, config, true⟩ color w =
    .ok (.success w (String.join ((fixes.filter (!·.isUnchanged)).map FileFix.preview))) := by
  simp only [run, hexamine, hfixes, if_true]

theorem FixOptions.run_write (color : Bool) : FixOptions.run ⟨path, config, false⟩ color w =
    .ok (.success (fixes.foldl Workspace.applyFix w)
      (Report.Pretty.fixReport color path fixes false)) := by
  simp [run, hexamine, hfixes]

end Fix

section Agreement

variable {w : Workspace} {options : LintOptions} {e : Examination} {format : ReportFormat}
  (hw : w.IsFileTree) (hexamine : w.examine options.path options.config = .ok e)
  (hformat : ReportFormat.ofName? options.format = some format)
include hw hexamine hformat

theorem isFixedAsReported {fixes : List FileFix}
    (hall : List.Forall₂ (e.compilation w).IsReportedFixOf (e.compilation w).files fixes)
    (color : Bool) (summary : String) :
    e.IsFixedAsReported w (options.run color w)
      (.success w (String.join ((fixes.filter (!·.isUnchanged)).map FileFix.preview)))
      (.success (fixes.foldl Workspace.applyFix w) summary)
      (Compilation.fixedSources (fixes.filter (!·.isUnchanged))) where
  lint_workspace := LintOptions.workspace_run hexamine hformat color
  lint_status := by
    rw [LintOptions.status_run hexamine hformat]
    simp only [Examination.isClean_iff_fixes hall]
  dry_workspace := rfl
  dry_output := by
    rw [Compilation.fixedSources, List.map_map, funext FileFix.preview_eq]
    rfl
  same := Workspace.isSameTree_foldl_applyFix w fixes
  distinct := by
    rw [Compilation.fixedSources, List.map_map]
    exact (Examination.nodup_path_fixes hall hw).sublist (List.filter_sublist.map _)
  reported := by
    intro f hf
    exact (Examination.reports_iff_mem_changed hall).2 (List.mem_map_of_mem hf)
  isFile := by
    intro path hreports
    obtain ⟨doc, hdoc, rfl, -⟩ := Examination.reports_iff_exists_file.1 hreports
    obtain ⟨p, hp, hpath⟩ := Examination.exists_content?_of_mem_files hw hdoc
    exact ⟨p, by rw [Workspace.isFile, hp]; rfl, hpath⟩
  changed := by
    intro p hp hreports
    obtain ⟨content, hcontent⟩ := Option.isSome_iff_exists.1 hp
    have hnamed := hw.named _ (Workspace.mem_files_of_content? hcontent)
    obtain ⟨fix, hfix, hpath, hchanged⟩ := (Examination.reports_iff_exists_fix hall).1 hreports
    refine ⟨fix.fixed, ?_, Examination.fixed_of_mem_fixes hall hw hfix hchanged hnamed hpath.symm⟩
    rw [← hpath]
    exact List.mem_map_of_mem (List.mem_filter.2 ⟨hfix, by simp [hchanged]⟩)
  kept := by
    intro p hreports
    exact Examination.kept_of_not_reports hall hreports

/-- The commands agree on what is at a path: fixing changes the files that are reported, and no
others, each to the text that is printed for it. -/
theorem exists_isFixedAsReported (color : Bool) :
    ∃ dry fixed printed,
      FixOptions.run ⟨options.path, options.config, true⟩ color w = .ok dry ∧
      FixOptions.run ⟨options.path, options.config, false⟩ color w = .ok fixed ∧
      ((e.compilation w).result.scanned ≠ 0 → (options.run color w).output =
        e.report color format options (e.compilation w).result) ∧
      e.IsFixedAsReported w (options.run color w) dry fixed printed := by
  obtain ⟨fixes, hfixes, hall⟩ :=
    Examination.exists_reportedFixes (Workspace.error?_eq_none_of_examine hexamine) w
  exact ⟨_, _, _, FixOptions.run_dry hexamine hfixes color,
    FixOptions.run_write hexamine hfixes color,
    fun hscanned => LintOptions.output_run hexamine hformat hscanned color,
    isFixedAsReported hw hexamine hformat hall color _⟩

end Agreement

/-- A file with an allocation, one where it is silenced, and one that holds no text. -/
def threeFiles : Workspace where
  current := []
  files := [
    (["a.cs"], .text "var a = new int[0];"),
    (["b.cs"], .text "var b = new int[0]; // emptycheck:ignore CA1825"),
    (["lib", "c.cs"], .binary [255])]
  directories := []

theorem exists_isFixedAsReported_threeFiles : threeFiles.IsFileTree ∧
    threeFiles.examine "." none = .ok ⟨[], .standard, none⟩ ∧
    ReportFormat.ofName? "json" = some .json ∧
    ∃ dry fixed printed,
      FixOptions.run ⟨".", none, true⟩ false threeFiles = .ok dry ∧
      FixOptions.run ⟨".", none, false⟩ false threeFiles = .ok fixed ∧
      (Examination.mk [] .standard none).IsFixedAsReported threeFiles
        (LintOptions.run ⟨".", none, "json", false⟩ false threeFiles) dry fixed printed := by
  have hw : threeFiles.IsFileTree := ⟨by decide, by decide +kernel⟩
  have hexamine : threeFiles.examine "." none = .ok ⟨[], .standard, none⟩ := by rfl
  have hformat : ReportFormat.ofName? "json" = some .json := rfl
  obtain ⟨dry, fixed, printed, hdry, hfixed, -, hagree⟩ :=
    @exists_isFixedAsReported threeFiles ⟨".", none, "json", false⟩ ⟨[], .standard, none⟩ .json hw
      hexamine hformat false
  exact ⟨hw, hexamine, hformat, dry, fixed, printed, hdry, hfixed, hagree⟩

end ZeroAlloc

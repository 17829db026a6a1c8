import ZeroAlloc.Proofs.Compilation.Fixes
import ZeroAlloc.Proofs.Compilation.Files
import ZeroAlloc.Proofs.Document.Behind
set_option autoImplicit false

/-! # Silencing a file by its first line

A comment in front of a file can silence all of it. Nothing is then reported or fixed in the file,
and every finding that it has without the comment is silenced, one line further down
(`isSilenced_ofSources`). -/

namespace ZeroAlloc

/-! ## The first line -/

/-- What stands behind the comment mark in a line that silences its whole file. -/
def ignoreFileWords : String := " emptycheck:ignore-file CA1825"

theorem not_mem_feed_ignoreFileWords : '\n' ∉ ignoreFileWords.toList := by
  decide

/-- The line that silences the whole file, with its line feed. -/
def Language.ignoreFileLine (language : Language) : String :=
  language.commentMark ++ ignoreFileWords ++ "\n"

namespace Suppression

/-- The suppression that the line stands for. -/
def ofIgnoreFileLine (file : String) : Suppression := ⟨ZeroAlloc.ruleId, "", file, 0, .file⟩

theorem linesFrom_append {line : List Char} (hreturn : '\r' ∉ line) (hfeed : '\n' ∉ line)
    (passed cs : List Char) :
    linesFrom passed (line ++ '\n' :: cs) = (passed.reverse ++ line) :: linesFrom [] cs := by
  induction line generalizing passed with
  | nil => simp [linesFrom]
  | cons c line ih =>
    rw [List.mem_cons, not_or] at hreturn hfeed
    rw [List.cons_append, linesFrom_cons (Ne.symm hreturn.1) (Ne.symm hfeed.1),
      ih hreturn.2 hfeed.2]
    simp

theorem ofLine?_ignoreFileLine (language : Language) (file : String) :
    ofLine? file true 1 (language.commentMark ++ ignoreFileWords).toList =
      some (ofIgnoreFileLine file) := by
  cases language <;> rfl

/-- A file with the line in front has its suppression before all others. -/
theorem exists_parse_ignoreFileLine (language : Language) (file source : String) :
    ∃ others, parse file (language.ignoreFileLine ++ source) =
      ofIgnoreFileLine file :: others := by
  have htext : (language.ignoreFileLine ++ source).toList =
      (language.commentMark ++ ignoreFileWords).toList ++ '\n' :: source.toList := by
    simp [Language.ignoreFileLine]
  have hplain : '\r' ∉ (language.commentMark ++ ignoreFileWords).toList ∧
      '\n' ∉ (language.commentMark ++ ignoreFileWords).toList := by
    cases language <;> decide
  have hheader : isCommentOrBlank (Text.trim
      (language.commentMark ++ ignoreFileWords).toList) = true := by
    cases language <;> decide
  rw [parse, lines, htext, linesFrom_append hplain.1 hplain.2, List.reverse_nil, List.nil_append,
    ofLines, hheader, Bool.and_true, ofLine?_ignoreFileLine]
  exact ⟨_, rfl⟩

theorem covers_ofIgnoreFileLine {file : String} {d : Diagnostic} (h : d.file = file) :
    (ofIgnoreFileLine file).covers d = true := by
  simp [covers, namesRule, ofIgnoreFileLine, Text.equalIgnoringCase, h]

/-- Where the first suppression covers all diagnostics, it silences them. -/
theorem active_eq_nil {s : Suppression} {ds : List Diagnostic} (h : ∀ d ∈ ds, s.covers d = true)
    (others : List Suppression) : active (s :: others) ds = [] := by
  refine List.filter_eq_nil_iff.2 fun d hd => ?_
  simp [h d hd]

theorem suppressed_eq_map {s : Suppression} {ds : List Diagnostic}
    (h : ∀ d ∈ ds, s.covers d = true) (others : List Suppression) :
    suppressed (s :: others) ds = ds.map fun d => ⟨d, s⟩ := by
  rw [suppressed, ← List.filterMap_eq_map]
  refine List.filterMap_congr fun d hd => ?_
  have hfirst : (s :: others).find? (fun s => s.covers d) = some s :=
    List.find?_cons_of_pos (h d hd)
  rw [hfirst]
  rfl

end Suppression

namespace Compilation

/-! ## One file -/

/-- The diagnostic, one line further down. -/
def lineBelow (d : Diagnostic) : Diagnostic :=
  { d with line := d.line + 1, endLine := d.endLine + 1 }

section File

variable {c other : Compilation} (hconfig : other.config = c.config)
  (hfactory : other.factoryAvailable = c.factoryAvailable) (language : Language)
  (path source : String)
include hconfig

theorem diagnostic_ignored {finding : Finding}
    (h : finding ∈ c.findings (.read language path source)) :
    other.diagnostic (.read language path (language.ignoreFileLine ++ source))
        { finding with site := finding.site.shift language.afterCommentLine.length } =
      lineBelow (c.diagnostic (.read language path source) finding) := by
  obtain ⟨hfirst, hlast⟩ := Document.siteSpan_behind_comment language path
    not_mem_feed_ignoreFileWords source (Document.of_mem_findings h).1
  change (Document.siteSpan (.read language path (language.ignoreFileLine ++ source)) _).first =
    _ at hfirst
  change (Document.siteSpan (.read language path (language.ignoreFileLine ++ source)) _).last =
    _ at hlast
  simp only [diagnostic, lineBelow, hconfig, hfirst, hlast]
  rfl

include hfactory

theorem diagnostics_ignored :
    (other.findings (.read language path (language.ignoreFileLine ++ source))).map
        (other.diagnostic (.read language path (language.ignoreFileLine ++ source))) =
      (c.findings (.read language path source)).map fun finding =>
        lineBelow (c.diagnostic (.read language path source) finding) := by
  have hfindings : other.findings (.read language path (language.ignoreFileLine ++ source)) =
      (c.findings (.read language path source)).map fun finding =>
        { finding with site := finding.site.shift language.afterCommentLine.length } := by
    rw [findings_congr hconfig hfactory]
    exact Document.findings_behind_comment language path not_mem_feed_ignoreFileWords source
      c.policy
  rw [hfindings, List.map_map]
  exact List.map_congr_left fun finding h => diagnostic_ignored hconfig language path source h

/-- Nothing is reported, and every finding is silenced. -/
theorem fileResult_ignored :
    other.fileResult (.read language path (language.ignoreFileLine ++ source)) =
      ⟨[], (c.findings (.read language path source)).map fun finding =>
        ⟨lineBelow (c.diagnostic (.read language path source) finding),
          .ofIgnoreFileLine path⟩, 1⟩ := by
  obtain ⟨others, hparse⟩ := Suppression.exists_parse_ignoreFileLine language path source
  have hsuppressions : suppressions (.read language path (language.ignoreFileLine ++ source)) =
      .ofIgnoreFileLine path :: others := hparse
  have hcovers : ∀ d ∈
      (other.findings (.read language path (language.ignoreFileLine ++ source))).map
        (other.diagnostic (.read language path (language.ignoreFileLine ++ source))),
      (Suppression.ofIgnoreFileLine path).covers d = true :=
    fun d hd => Suppression.covers_ofIgnoreFileLine (file_of_mem_diagnostics hd)
  rw [fileResult, hsuppressions, Suppression.active_eq_nil hcovers,
    Suppression.suppressed_eq_map hcovers, diagnostics_ignored hconfig hfactory, List.map_map]
  rfl

/-- Nothing is fixed. -/
theorem fileFix_ignored :
    other.fileFix (.read language path (language.ignoreFileLine ++ source)) =
      .ok ⟨path, [], language.ignoreFileLine ++ source⟩ := by
  -- what is fixed is what is reported, and nothing is
  have hactive := map_activeFindings other
    (.read language path (language.ignoreFileLine ++ source))
  rw [fileResult_ignored hconfig hfactory, List.map_eq_nil_iff] at hactive
  simp only [fileFix, hactive, Document.edits, List.filterMap_nil, keepDisjoint, List.foldl_nil,
    Edit.apply_nil]
  rfl

end File

/-! ## The file among others -/

section Sources

variable (config : Config) (before after : List (String × String)) (path source : String)
  {language : Language} (h : languageOf? path = some language)
include h

theorem mem_files_among : Document.read language path source ∈
    (ofSources config (before ++ (path, source) :: after)).files := by
  refine (perm_files config _).mem_iff.2 (List.mem_filterMap.2 ⟨(path, source), ?_, ?_⟩)
  · simp
  · simp [documentOf?, h]

/-- The line in front of a file does not matter to whether the factory exists. -/
theorem factoryAvailable_ignored :
    (ofSources config (before ++ (path, language.ignoreFileLine ++ source) ::
        after)).factoryAvailable =
      (ofSources config (before ++ (path, source) :: after)).factoryAvailable := by
  have hread (source : String) :
      documentOf? (path, source) = some (.read language path source) := by
    simp [documentOf?, h]
  have hdeclares :
      (Document.read language path (language.ignoreFileLine ++ source)).declaresFactory
          config.factory =
        (Document.read language path source).declaresFactory config.factory := by
    have hmethods : (Document.read language path
        (language.ignoreFileLine ++ source)).genericMethods =
          (Document.read language path source).genericMethods :=
      Document.genericMethods_behind_comment language path not_mem_feed_ignoreFileWords source
    simp only [Document.declaresFactory, hmethods]
    rfl
  refine congrArg (config.assumeFactoryAvailable || ·) ?_
  rw [(perm_files config _).any_eq, (perm_files config _).any_eq, List.filterMap_append,
    List.filterMap_append, List.filterMap_cons_some (hread _), List.filterMap_cons_some (hread _),
    List.any_append, List.any_append, List.any_cons, List.any_cons]
  exact congrArg (fun b => _ || (b || _)) hdeclares

/-- In the second compilation the first document has the line in front that silences it. -/
structure IsSilenced (c other : Compilation) (doc doc' : Document) : Prop where
  mem_files : doc ∈ c.files
  mem_files' : doc' ∈ other.files
  diagnostics : (other.fileResult doc').diagnostics = []
  /-- Each finding of the file is silenced, with all that is reported on it but the lines. -/
  suppressed : (other.fileResult doc').suppressed = (c.findings doc).map fun finding =>
    ⟨lineBelow (c.diagnostic doc finding), .ofIgnoreFileLine doc.path⟩
  fix : other.fileFix doc' = .ok ⟨doc'.path, [], doc'.source⟩

/-- The line in front of a file silences it, whatever the file, the configuration and the other
files are. -/
theorem isSilenced_ofSources :
    IsSilenced (ofSources config (before ++ (path, source) :: after))
      (ofSources config (before ++ (path, language.ignoreFileLine ++ source) :: after))
      (.read language path source)
      (.read language path (language.ignoreFileLine ++ source)) := by
  have hfactory := factoryAvailable_ignored config before after path source h
  have hconfig :
      (ofSources config (before ++ (path, language.ignoreFileLine ++ source) :: after)).config =
        (ofSources config (before ++ (path, source) :: after)).config := rfl
  have hresult := fileResult_ignored hconfig hfactory language path source
  exact {
    mem_files := mem_files_among config before after path source h
    mem_files' := mem_files_among config before after path _ h
    diagnostics := congrArg DetectionResult.diagnostics hresult
    suppressed := congrArg DetectionResult.suppressed hresult
    fix := fileFix_ignored hconfig hfactory language path source }

end Sources

/-- A file with one finding on its first line. -/
def oneFinding : String := "Dim a = New Integer() \x7b\x7d"

theorem isSilenced_oneFinding :
    languageOf? "a.vb" = some .visualBasic ∧
      ((ofSources .standard [("a.vb", oneFinding)]).findings
        (.read .visualBasic "a.vb" oneFinding)).length = 1 ∧
      IsSilenced (ofSources .standard [("a.vb", oneFinding)])
        (ofSources .standard [("a.vb", Language.visualBasic.ignoreFileLine ++ oneFinding)])
        (.read .visualBasic "a.vb" oneFinding)
        (.read .visualBasic "a.vb" (Language.visualBasic.ignoreFileLine ++ oneFinding)) := by
  have hlanguage : languageOf? "a.vb" = some .visualBasic := by decide +kernel
  exact ⟨hlanguage, by decide +kernel,
    isSilenced_ofSources .standard [] [] "a.vb" oneFinding hlanguage⟩

end Compilation

end ZeroAlloc

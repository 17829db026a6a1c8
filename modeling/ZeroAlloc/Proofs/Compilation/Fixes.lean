import Mathlib.Data.List.Forall2
import ZeroAlloc.Compilation
import ZeroAlloc.Proofs.Document.Edits
import ZeroAlloc.Proofs.Replacement
import ZeroAlloc.Proofs.Suppression
set_option autoImplicit false

/-! # Fixing a compilation

Whatever the sources are, all files can be fixed, and each fixed text is its source with the cuts of
the kept edits (`Compilation.exists_fixes`). Each cut removes one finding that is flagged and not
silenced; the text outside the cuts stays.

The report on a file and its fix are made from the same findings, but each path silences findings
for itself. They agree all the same (`exists_fixes_agreeing`): the fix removes what is reported,
except where one edit would overlap another, and leaves what is silenced. -/

namespace ZeroAlloc

open Edit (Cut IsSplice)

/-- If every step succeeds, all of them do, and each outcome is one of its step. -/
theorem exists_mapM_eq_ok {α β ε : Type} {f : α → Except ε β} {R : α → β → Prop} {xs : List α}
    (h : ∀ x ∈ xs, ∃ y, f x = .ok y ∧ R x y) :
    ∃ ys, xs.mapM f = .ok ys ∧ List.Forall₂ R xs ys := by
  induction xs with
  | nil => exact ⟨[], rfl, .nil⟩
  | cons x xs ih =>
    obtain ⟨y, hy, hxy⟩ := h x List.mem_cons_self
    obtain ⟨ys, hys, hrest⟩ := ih fun x' hx' => h x' (List.mem_cons_of_mem x hx')
    refine ⟨y :: ys, ?_, .cons hxy hrest⟩
    rw [List.mapM_cons, hy, hys]
    rfl

/-- What a row holds is related to something in a related row. -/
theorem exists_mem_of_forall₂ {α β : Type} {R : α → β → Prop} {xs : List α} {ys : List β}
    (h : List.Forall₂ R xs ys) : ∀ x ∈ xs, ∃ y ∈ ys, R x y := by
  induction h with
  | nil => exact fun x hx => absurd hx List.not_mem_nil
  | cons hxy _ ih =>
    intro x hx
    rcases List.mem_cons.1 hx with rfl | hx
    · exact ⟨_, List.mem_cons_self, hxy⟩
    · obtain ⟨y, hy, hxy⟩ := ih x hx
      exact ⟨y, List.mem_cons_of_mem _ hy, hxy⟩

namespace Compilation

variable {c : Compilation} {doc : Document}

/-! ## Files and findings -/

/-- The document is the reading of one of the sources. -/
structure IsReadFrom (sources : List (String × String)) (doc : Document) : Prop where
  mem : (doc.path, doc.source) ∈ sources
  language : languageOf? doc.path = some doc.language
  read : doc = Document.read doc.language doc.path doc.source

theorem isReadFrom_of_mem_files {config : Config} {sources : List (String × String)}
    (h : doc ∈ (ofSources config sources).files) : IsReadFrom sources doc := by
  obtain ⟨⟨path, source⟩, hmem, hread⟩ := List.mem_filterMap.1 (List.mem_mergeSort.1 h)
  obtain ⟨language, hlanguage, rfl⟩ := Option.map_eq_some_iff.1 hread
  exact ⟨hmem, hlanguage, rfl⟩

/-- The site of the finding is flagged, and no suppression in the file covers the report on it. -/
structure IsActive (c : Compilation) (doc : Document) (finding : Finding) : Prop where
  mem_sites : finding.site ∈ doc.sites
  flagged : finding.site.decision doc.language doc.constants c.policy = .flag
  typeArgument : doc.language.typeArgument? finding.site = some finding.typeArgument
  unsuppressed : ∀ s ∈ suppressions doc, s.covers (c.diagnostic doc finding) = false

theorem isActive_of_mem_activeFindings {finding : Finding} (h : finding ∈ c.activeFindings doc) :
    c.IsActive doc finding := by
  obtain ⟨hfinding, hactive⟩ := List.mem_filter.1 h
  obtain ⟨hsite, hflag, hargument⟩ := Document.of_mem_findings hfinding
  refine ⟨hsite, hflag, hargument, fun s hs => ?_⟩
  simp only [Bool.not_eq_true', List.any_eq_false, Bool.not_eq_true] at hactive
  exact hactive s hs

/-! ## Fixed texts -/

/-- The fix of a file: its edits are the kept ones, and its text is the source with their cuts.
Each of these removes an active finding, and no active finding is passed over unless its edit
overlaps a kept one. -/
structure IsFixOf (c : Compilation) (doc : Document) (fix : FileFix) : Prop where
  path : fix.path = doc.path
  edits : fix.edits = doc.edits c.config.factory (c.activeFindings doc)
  exhaustive : ∀ finding ∈ c.activeFindings doc, ∀ e,
    doc.edit? c.config.factory finding = some e → ∃ kept ∈ fix.edits, kept.overlaps e = true
  spliced : ∃ head cuts, (cuts.map Cut.edit).Perm fix.edits ∧
    IsSplice 0 doc.source.toList fix.fixed.toList head cuts ∧
    ∀ earlier cut later, cuts = earlier ++ cut :: later →
      ∃ finding, c.IsActive doc finding ∧ doc.edit? c.config.factory finding = some cut.edit ∧
        doc.RemovedBy c.config.factory finding cut (cut.kept ++ later.flatMap Cut.old)

theorem exists_isActive_of_mem_edits {factory : Factory} {e : Edit}
    (h : e ∈ doc.edits factory (c.activeFindings doc)) :
    ∃ finding, c.IsActive doc finding ∧ doc.edit? factory finding = some e := by
  obtain ⟨finding, hmem, hedit⟩ := List.mem_filterMap.1 (mem_of_mem_keepDisjoint h)
  exact ⟨finding, isActive_of_mem_activeFindings hmem, hedit⟩

theorem IsActive.exists_siteText {sources : List (String × String)} {finding : Finding}
    (h : c.IsActive doc finding) (hread : IsReadFrom sources doc) :
    Nonempty (doc.SiteText finding.site) := by
  have hmem := h.mem_sites
  rw [hread.read] at hmem ⊢
  exact Document.exists_siteText hmem

theorem fitsIn_of_mem_edits {sources : List (String × String)} (hread : IsReadFrom sources doc)
    {e : Edit} (he : e ∈ doc.edits c.config.factory (c.activeFindings doc)) :
    e.FitsIn 0 doc.source.toList := by
  have hfindings : ∀ finding ∈ c.activeFindings doc, finding ∈ doc.findings c.policy :=
    fun _ hfinding => (List.mem_filter.1 hfinding).1
  rw [hread.read] at he hfindings ⊢
  exact Document.fitsIn_of_mem_edits hfindings he

theorem exists_fileFix {sources : List (String × String)} (hread : IsReadFrom sources doc) :
    ∃ fix, c.fileFix doc = .ok fix ∧ c.IsFixOf doc fix := by
  have hfits : ∀ e ∈ doc.edits c.config.factory (c.activeFindings doc),
      e.FitsIn 0 doc.source.toList := fun _ he => fitsIn_of_mem_edits hread he
  obtain ⟨fixed, head, cuts, happly, hperm, hsplice⟩ :=
    Edit.exists_isSplice_of_apply hfits (pairwise_keepDisjoint _)
  refine ⟨⟨doc.path, doc.edits c.config.factory (c.activeFindings doc), fixed⟩, ?_, rfl, rfl, ?_,
    head, cuts, hperm, hsplice, ?_⟩
  · simp only [fileFix, happly]
  · intro finding hfinding e hedit
    exact exists_overlaps_of_mem (List.mem_filterMap.2 ⟨finding, hfinding, hedit⟩)
  · rintro earlier cut later rfl
    obtain ⟨finding, hactive, hedit⟩ :=
      exists_isActive_of_mem_edits (hperm.mem_iff.1 (by simp : cut.edit ∈ _))
    obtain ⟨text⟩ := hactive.exists_siteText hread
    -- the cut stands at the place of its edit, which is the place of the site
    obtain ⟨hstart, hstop⟩ := hsplice.placed earlier cut later rfl
    rw [Nat.zero_add] at hstart
    have hsource := hsplice.before
    simp only [List.flatMap_append, List.flatMap_cons, Cut.old, List.append_assoc] at hsource
    rw [← List.append_assoc] at hsource
    exact ⟨finding, hactive, hedit, Document.removedBy_of_edit? text hedit hsource hstart hstop⟩

/-- The files of a compilation can be fixed, and whatever holds of the fix of a file that was read
holds of each of them. -/
theorem exists_forall₂_fixes (config : Config) (sources : List (String × String))
    {R : Document → FileFix → Prop}
    (h : ∀ doc fix, IsReadFrom sources doc → (ofSources config sources).fileFix doc = .ok fix →
      (ofSources config sources).IsFixOf doc fix → R doc fix) :
    ∃ fixes, (ofSources config sources).fixes = .ok fixes ∧
      List.Forall₂ R (ofSources config sources).files fixes := by
  refine exists_mapM_eq_ok fun doc hdoc => ?_
  have hread := isReadFrom_of_mem_files hdoc
  obtain ⟨fix, hfix, hfixes⟩ := exists_fileFix hread
  exact ⟨fix, hfix, h doc fix hread hfix hfixes⟩

/-- The files of a compilation can be fixed, whatever the sources are. Each fixed text is its source
with the cuts of the kept edits, which remove findings that are flagged and not silenced. -/
theorem exists_fixes (config : Config) (sources : List (String × String)) :
    ∃ fixes, (ofSources config sources).fixes = .ok fixes ∧
      List.Forall₂
        (fun doc fix => IsReadFrom sources doc ∧ (ofSources config sources).IsFixOf doc fix)
        (ofSources config sources).files fixes :=
  exists_forall₂_fixes config sources fun _ _ hread _ hfixes => ⟨hread, hfixes⟩

/-! ## What is reported and what is fixed -/

/-- The report on a file and its fix agree. -/
structure Agrees (c : Compilation) (doc : Document) (fix : FileFix) : Prop where
  /-- The findings are divided between the two lists of the report. -/
  split : Suppression.IsSplit (suppressions doc) ((c.findings doc).map (c.diagnostic doc))
    (c.fileResult doc).diagnostics (c.fileResult doc).suppressed
  /-- The fix goes by the findings that are reported. -/
  active : (c.activeFindings doc).map (c.diagnostic doc) = (c.fileResult doc).diagnostics
  /-- Every edit stems from a finding that is reported. -/
  stems : ∀ e ∈ fix.edits, ∃ finding ∈ c.activeFindings doc,
    doc.edit? c.config.factory finding = some e
  /-- No edit stems from a finding that is silenced. -/
  spared : ∀ finding ∈ c.findings doc, ∀ s ∈ suppressions doc,
    s.covers (c.diagnostic doc finding) = true →
      ∀ e ∈ fix.edits, doc.edit? c.config.factory finding ≠ some e
  edits_eq_nil_iff : fix.edits = [] ↔ (c.fileResult doc).diagnostics = []
  /-- At its turn, the edit of a finding is kept, unless it overlaps one that was kept for an
  earlier finding. -/
  turn : ∀ before finding after, c.activeFindings doc = before ++ finding :: after →
    ∃ e, doc.edit? c.config.factory finding = some e ∧
      ((∃ later, fix.edits = doc.edits c.config.factory before ++ e :: later) ∨
        ∃ earlier ∈ before, ∃ kept ∈ fix.edits,
          doc.edit? c.config.factory earlier = some kept ∧ kept.overlaps e = true)

/-! ## Findings of a file -/

theorem map_activeFindings (c : Compilation) (doc : Document) :
    (c.activeFindings doc).map (c.diagnostic doc) = (c.fileResult doc).diagnostics := by
  rw [activeFindings, fileResult, Suppression.active, List.filter_map]
  rfl

theorem mem_findings_of_mem_activeFindings {finding : Finding}
    (h : finding ∈ c.activeFindings doc) : finding ∈ c.findings doc :=
  (List.mem_filter.1 h).1

section Read

variable {sources : List (String × String)}

/-- Every finding has an edit. -/
theorem exists_edit? (hread : IsReadFrom sources doc) {finding : Finding}
    (h : finding ∈ c.findings doc) :
    ∃ e, doc.edit? c.config.factory finding = some e := by
  rw [hread.read] at h ⊢
  exact Document.exists_edit?_of_mem_findings h

/-- Findings with one edit are silenced together. -/
theorem covers_eq_of_edit?_eq (hread : IsReadFrom sources doc) {finding other : Finding} {e : Edit}
    (hfinding : finding ∈ c.findings doc) (hother : other ∈ c.findings doc)
    (h : doc.edit? c.config.factory finding = some e)
    (h' : doc.edit? c.config.factory other = some e) (s : Suppression) :
    s.covers (c.diagnostic doc finding) = s.covers (c.diagnostic doc other) := by
  have hsite := (Document.of_mem_findings hfinding).1
  have hsite' := (Document.of_mem_findings hother).1
  have hstart : (doc.siteSpan finding.site).start = (doc.siteSpan other.site).start := by
    rw [hread.read] at hsite hsite' h h' ⊢
    exact Document.start_eq_of_edit?_eq hsite hsite' h h'
  refine s.covers_congr rfl ?_
  change (Text.positionAt _ (doc.siteSpan finding.site).start).line =
    (Text.positionAt _ (doc.siteSpan other.site).start).line
  rw [hstart]

theorem edits_eq_nil_iff (hread : IsReadFrom sources doc) :
    doc.edits c.config.factory (c.activeFindings doc) = [] ↔ c.activeFindings doc = [] := by
  constructor
  · intro hedits
    by_contra hactive
    obtain ⟨finding, hfinding⟩ := List.exists_mem_of_ne_nil _ hactive
    obtain ⟨e, hedit⟩ := exists_edit? hread (mem_findings_of_mem_activeFindings hfinding)
    obtain ⟨kept, hkept, _⟩ :=
      exists_overlaps_of_mem (List.mem_filterMap.2 ⟨finding, hfinding, hedit⟩)
    rw [Document.edits] at hedits
    rw [hedits] at hkept
    cases hkept
  · intro hactive
    rw [hactive]
    rfl

theorem turn_of_activeFindings (hread : IsReadFrom sources doc) {before after : List Finding}
    {finding : Finding} (hactive : c.activeFindings doc = before ++ finding :: after) :
    ∃ e, doc.edit? c.config.factory finding = some e ∧
      ((∃ later, doc.edits c.config.factory (c.activeFindings doc) =
          doc.edits c.config.factory before ++ e :: later) ∨
        ∃ earlier ∈ before, ∃ kept ∈ doc.edits c.config.factory (c.activeFindings doc),
          doc.edit? c.config.factory earlier = some kept ∧ kept.overlaps e = true) := by
  have hmem : finding ∈ c.activeFindings doc := by simp [hactive]
  obtain ⟨e, hedit⟩ := exists_edit? hread (mem_findings_of_mem_activeFindings hmem)
  have hall : (c.activeFindings doc).filterMap (doc.edit? c.config.factory) =
      before.filterMap (doc.edit? c.config.factory) ++
        e :: after.filterMap (doc.edit? c.config.factory) := by
    rw [hactive, List.filterMap_append, List.filterMap_cons_some hedit]
  refine ⟨e, hedit, ?_⟩
  simp only [Document.edits, hall]
  refine (keepDisjoint_turn _ _ e).imp_right ?_
  rintro ⟨kept, hkept, hoverlap⟩
  obtain ⟨earlier, hearlier, hkeptEdit⟩ := List.mem_filterMap.1 (mem_of_mem_keepDisjoint hkept)
  exact ⟨earlier, hearlier, kept, (keepDisjoint_isPrefix _ _).mem hkept, hkeptEdit, hoverlap⟩

theorem agrees_of_fix (hread : IsReadFrom sources doc) {fix : FileFix}
    (hedits : fix.edits = doc.edits c.config.factory (c.activeFindings doc)) :
    c.Agrees doc fix where
  split := Suppression.isSplit _ _
  active := map_activeFindings c doc
  stems := by
    intro e he
    rw [hedits] at he
    exact List.mem_filterMap.1 (mem_of_mem_keepDisjoint he)
  spared := by
    intro finding hfinding s hs hcovered e he hedit
    rw [hedits] at he
    obtain ⟨other, hother, hedit'⟩ := List.mem_filterMap.1 (mem_of_mem_keepDisjoint he)
    have hsame := covers_eq_of_edit?_eq hread hfinding (mem_findings_of_mem_activeFindings hother)
      hedit hedit' s
    have hactive := (isActive_of_mem_activeFindings hother).unsuppressed s hs
    rw [← hsame, hcovered] at hactive
    cases hactive
  edits_eq_nil_iff := by
    rw [hedits, edits_eq_nil_iff hread, ← map_activeFindings, List.map_eq_nil_iff]
  turn := by
    intro before finding after hactive
    rw [hedits]
    exact turn_of_activeFindings hread hactive

/-- The files of a compilation can be fixed, and each fix agrees with the report on its file. -/
theorem exists_fixes_agreeing (config : Config) (sources : List (String × String)) :
    ∃ fixes, (ofSources config sources).fixes = .ok fixes ∧
      List.Forall₂ (ofSources config sources).Agrees (ofSources config sources).files fixes :=
  exists_forall₂_fixes config sources fun _ _ hread _ hfixes => agrees_of_fix hread hfixes.edits

end Read

end Compilation

end ZeroAlloc

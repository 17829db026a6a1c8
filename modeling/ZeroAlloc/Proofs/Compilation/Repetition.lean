import ZeroAlloc.Config.Validation
import ZeroAlloc.Proofs.Compilation.Fixes
import ZeroAlloc.Proofs.Compilation.Files
import ZeroAlloc.Proofs.Document.Quiet
set_option autoImplicit false

/-! # Fixing what was fixed

A pass that leaves all files as they are has nothing to report, and then neither has a pass over its
outcome (`isClean_iff_isUnchanged`). A pass that changes files is enough if each stretch of text
between the fixes has nothing to report for itself and keeps apart from the call behind it, as long
as arrays that the compiler makes are passed over (`isClean_fixedSources`). Otherwise one pass need
not be enough (`not_forall_fixed_clean`): the argument that a fix adds to a call may make it a call
of another overload that leaves out a parameter array. -/

namespace ZeroAlloc.Compilation

/-- The sources after a pass. -/
def fixedSources (fixes : List FileFix) : List (String × String) :=
  fixes.map fun fix => (fix.path, fix.fixed)

/-! ## Passes that change nothing -/

theorem isClean_iff (c : Compilation) :
    c.result.isClean = true ↔ ∀ doc ∈ c.files, (c.fileResult doc).diagnostics = [] := by
  rw [DetectionResult.isClean, List.isEmpty_iff, result_eq]
  simp

/-- The files of a compilation, taken as its sources, give the compilation again. -/
theorem ofSources_files (config : Config) (sources : List (String × String)) :
    ofSources config ((ofSources config sources).files.map fun doc => (doc.path, doc.source)) =
      ofSources config sources := by
  have hfiles (sources : List (String × String)) : ofSources config sources =
      ⟨config, (sources.filterMap documentOf?).mergeSort fun a b => a.path ≤ b.path⟩ := rfl
  have hread : ((ofSources config sources).files.map fun doc => (doc.path, doc.source)).filterMap
      documentOf? = (ofSources config sources).files := by
    rw [List.filterMap_map]
    refine (List.filterMap_congr fun doc hdoc => ?_).trans List.filterMap_some
    have h := isReadFrom_of_mem_files hdoc
    simp only [Function.comp_apply, documentOf?, h.language, Option.map_some]
    rw [← h.read]
  have hsorted := (pairwise_path_files config sources).imp fun {a b} h =>
    (decide_eq_true h : decide (a.path ≤ b.path) = true)
  rw [hfiles, hread, List.mergeSort_of_pairwise hsorted]
  rfl

/-- A fix without edits leaves its file as it is. -/
theorem fixed_eq_of_isUnchanged {c : Compilation} {doc : Document} {fix : FileFix}
    (hfix : c.fileFix doc = .ok fix) (hunchanged : fix.isUnchanged = true) :
    (fix.path, fix.fixed) = (doc.path, doc.source) := by
  unfold fileFix at hfix
  dsimp only at hfix
  split at hfix
  · rename_i fixed happly
    cases hfix
    simp only [FileFix.isUnchanged, List.isEmpty_iff] at hunchanged
    rw [hunchanged, Edit.apply_nil] at happly
    rw [← Except.ok.inj happly]
  · cases hfix

/-- Files and fixes that correspond have a property together. -/
theorem forall_mem_iff_of_forall₂ {α β : Type} {R : α → β → Prop} {p : α → Prop} {q : β → Prop}
    {xs : List α} {ys : List β} (h : List.Forall₂ R xs ys) (hR : ∀ x y, R x y → (p x ↔ q y)) :
    (∀ x ∈ xs, p x) ↔ ∀ y ∈ ys, q y := by
  induction h with
  | nil => simp
  | cons hxy _ ih => rw [List.forall_mem_cons, List.forall_mem_cons, hR _ _ hxy, ih]

theorem map_eq_map_of_forall₂ {α β γ : Type} {R : α → β → Prop} {f : α → γ} {g : β → γ}
    {xs : List α} {ys : List β} (h : List.Forall₂ R xs ys)
    (hR : ∀ x, ∀ y ∈ ys, R x y → g y = f x) : ys.map g = xs.map f := by
  induction h with
  | nil => rfl
  | cons hxy _ ih =>
    rw [List.map_cons, List.map_cons, hR _ _ List.mem_cons_self hxy,
      ih fun x y hy => hR x y (List.mem_cons_of_mem _ hy)]

/-- A compilation has nothing to report exactly if a pass leaves all of its files as they are. The
outcome of the pass is then the same compilation, so it has nothing to report either. -/
theorem isClean_iff_isUnchanged (config : Config) (sources : List (String × String)) :
    ∃ fixes, (ofSources config sources).fixes = .ok fixes ∧
      ((ofSources config sources).result.isClean = true ↔
        ∀ fix ∈ fixes, fix.isUnchanged = true) ∧
      ((∀ fix ∈ fixes, fix.isUnchanged = true) →
        ofSources config (fixedSources fixes) = ofSources config sources) := by
  obtain ⟨fixes, hfixes, hall⟩ := exists_forall₂_fixes config sources
    (R := fun doc fix => (ofSources config sources).Agrees doc fix ∧
      (fix.isUnchanged = true → (fix.path, fix.fixed) = (doc.path, doc.source)))
    fun _ _ hread hfix hfixes => ⟨agrees_of_fix hread hfixes.edits, fixed_eq_of_isUnchanged hfix⟩
  refine ⟨fixes, hfixes, ?_, fun hunchanged => ?_⟩
  · rw [isClean_iff]
    refine forall_mem_iff_of_forall₂ hall fun doc fix h => ?_
    rw [← h.1.edits_eq_nil_iff, FileFix.isUnchanged, List.isEmpty_iff]
  · have hsame : fixedSources fixes =
        (ofSources config sources).files.map fun doc => (doc.path, doc.source) :=
      map_eq_map_of_forall₂ hall fun doc fix hfix h => h.2 (hunchanged fix hfix)
    rw [hsame, ofSources_files]

/-! ## Passes that are enough -/

/-- What a fix leaves of a file: the text in front of the first edit, and each call of the factory
with the text behind it. -/
def stretches (c : Compilation) (doc : Document) : List (List Char) :=
  Edit.stretches 0 [] doc.source.toList
    ((doc.edits c.config.factory (c.activeFindings doc)).mergeSort Edit.comesBefore)

section Enough

variable {c : Compilation} {doc : Document} {sources : List (String × String)}

theorem toList_fixed {fix : FileFix} (hread : IsReadFrom sources doc)
    (hfix : c.fileFix doc = .ok fix) :
    fix.path = doc.path ∧ fix.fixed.toList = (c.stretches doc).flatten := by
  have happly : Edit.apply doc.source (doc.edits c.config.factory (c.activeFindings doc)) = .ok _ :=
    Edit.apply_eq_ok (fun _ he => fitsIn_of_mem_edits hread he) (pairwise_keepDisjoint _)
  simp only [fileFix, happly] at hfix
  cases hfix
  refine ⟨rfl, ?_⟩
  rw [String.toList_ofList, stretches, Edit.flatten_stretches]
  rfl

/-- Behind the first one, each stretch opens with the name of the factory. -/
theorem opensWithName_of_mem_tail_stretches (hconfig : c.config.error? = none)
    (hskip : c.config.compilerGenerated = .skip)
    (hnames : ∀ part ∈ c.config.factory.nameParts true, doc.language.ReadsName part)
    {text : List Char} (h : text ∈ (c.stretches doc).tail) : doc.language.OpensWithName text := by
  obtain ⟨e, he, rest, rfl⟩ := Edit.exists_edit_of_mem_tail_stretches h
  obtain ⟨finding, hactive, hedit⟩ :=
    List.mem_filterMap.1 (mem_of_mem_keepDisjoint (List.mem_mergeSort.1 he))
  have hpolicy : c.policy.compilerGenerated = .skip := hskip
  have hwritten := Document.isCompilerGenerated_of_mem_findings hpolicy
    (mem_findings_of_mem_activeFindings hactive)
  obtain ⟨-, -, hreplacement⟩ := Document.edit?_written hwritten hedit
  have hqualifier : doc.replacement c.config.factory finding = doc.language.invocation
      (c.config.factory.qualifier? !doc.usesShortForm c.config.factory) c.config.factory
        finding.typeArgument := by
    rw [Document.replacement, Factory.qualifier?]
    cases doc.usesShortForm c.config.factory <;> rfl
  rw [hreplacement, hqualifier]
  refine Language.opensWithName_invocation hconfig (fun part hpart => hnames part ?_) _ rest
  -- a short name has the last parts of the long one
  cases hshort : doc.usesShortForm c.config.factory with
  | false => rwa [hshort] at hpart
  | true =>
    rw [hshort] at hpart
    exact List.mem_append_right _ hpart

end Enough

/-- One pass is enough, whatever it replaces, if each stretch that it leaves is quiet and stands
apart from the call behind it, the names of the factory are read as names, and arrays that the
compiler makes are passed over. -/
theorem isClean_fixedSources {config : Config} {sources : List (String × String)}
    (hconfig : config.error? = none) (hskip : config.compilerGenerated = .skip)
    (hnames : ∀ (language : Language), ∀ part ∈ config.factory.nameParts true,
      language.ReadsName part)
    (hquiet : ∀ doc ∈ (ofSources config sources).files,
      doc.language.AreQuiet ((ofSources config sources).stretches doc)) :
    ∃ fixes, (ofSources config sources).fixes = .ok fixes ∧
      (ofSources config (fixedSources fixes)).result.isClean = true := by
  obtain ⟨fixes, hfixes, hall⟩ := exists_forall₂_fixes config sources
    (R := fun doc fix => languageOf? doc.path = some doc.language ∧ fix.path = doc.path ∧
      fix.fixed.toList = ((ofSources config sources).stretches doc).flatten)
    fun doc fix hread hfix _ => ⟨hread.language, toList_fixed hread hfix⟩
  refine ⟨fixes, hfixes, (isClean_iff _).2 fun fixed hfixed => ?_⟩
  have hread := isReadFrom_of_mem_files hfixed
  obtain ⟨fix, hfix, hpair⟩ := List.mem_map.1 hread.mem
  obtain ⟨hpath, hsource⟩ := Prod.mk.inj hpair
  obtain ⟨doc, hdoc, hlanguage, hpath', htext⟩ := exists_mem_of_forall₂ hall.flip fix hfix
  have hsame : fixed.language = doc.language := by
    have := hread.language
    rw [← hpath, hpath', hlanguage] at this
    exact (Option.some.inj this).symm
  have hrow : fixed.language.IsQuiet (fixed.language.row fixed.source.toList) := by
    rw [← hsource, htext, hsame]
    exact Language.isQuiet_flatten (hquiet doc hdoc) fun _ hmem =>
      opensWithName_of_mem_tail_stretches (c := ofSources config sources) hconfig hskip (hnames _)
        hmem
  have hnone : (ofSources config (fixedSources fixes)).findings fixed = [] := by
    rw [findings, hread.read]
    exact Document.findings_eq_nil hskip hrow
  rw [← map_activeFindings, activeFindings, hnone]
  rfl

/-- An allocation and a use of the array. -/
def emptyField : String :=
  "class C \x7b int[] a = \x7b \x7d; int F() \x7b return a.Length; \x7d \x7d"

theorem isClean_fixedSources_emptyField :
    (ofSources .standard [("a.cs", emptyField)]).result.isClean = false ∧
    ∃ fixes, (ofSources .standard [("a.cs", emptyField)]).fixes = .ok fixes ∧
      (ofSources .standard (fixedSources fixes)).result.isClean = true := by
  have hquiet : ∀ doc ∈ (ofSources .standard [("a.cs", emptyField)]).files,
      (∀ text ∈ ((ofSources .standard [("a.cs", emptyField)]).stretches doc).dropLast,
        doc.language.StandsApart text) ∧
      ∀ text ∈ (ofSources .standard [("a.cs", emptyField)]).stretches doc,
        (∀ l ∈ doc.language.row text, doc.language.isNew l = false) ∧
        ∀ here ∈ (doc.language.row text).tails, doc.language.assignsEmptyList here = false := by
    decide +kernel
  refine ⟨by decide +kernel,
    isClean_fixedSources (by decide +kernel) rfl (fun language => ?_) fun doc hdoc => ?_⟩
  · cases language <;> decide +kernel
  · obtain ⟨hapart, hrows⟩ := hquiet doc hdoc
    exact ⟨hapart, fun text htext =>
      Language.isQuiet_of_forall (hrows text htext).1 (hrows text htext).2⟩

/-! ## Passes that leave something to report -/

/-- A call of a method that takes any number of arrays, beside an overload that takes one more. -/
def overloadedCall : String :=
  "class C \x7b void F(params int[] a) \x7b \x7d void F(int[] a, params int[] b) \x7b \x7d " ++
    "void G() \x7b F(); \x7d \x7d"

/-- What a pass makes of it. -/
def fixedOverloadedCall : String :=
  "class C \x7b void F(params int[] a) \x7b \x7d void F(int[] a, params int[] b) \x7b \x7d " ++
    "void G() \x7b F(System.Array.Empty<int>()); \x7d \x7d"

/-- Analysing the outcome of a pass need not come out clean. -/
theorem not_forall_fixed_clean :
    ¬∀ (config : Config) (path source : String) (fixes : List FileFix),
      config.error? = none → Suppression.parse path source = [] →
      (ofSources config [(path, source)]).fixes = .ok fixes →
      (ofSources config (fixedSources fixes)).result.diagnostics = [] := by
  intro hclaim
  let config : Config := { Config.standard with compilerGenerated := .flag }
  obtain ⟨fixes, hfixes, hsources⟩ : ∃ fixes,
      (ofSources config [("a.cs", overloadedCall)]).fixes = .ok fixes ∧
        fixedSources fixes = [("a.cs", fixedOverloadedCall)] := by
    have hpass : (ofSources config [("a.cs", overloadedCall)]).fixes.toOption.map fixedSources =
        some [("a.cs", fixedOverloadedCall)] := by decide +kernel
    cases hfixes : (ofSources config [("a.cs", overloadedCall)]).fixes with
    | error e => simp [hfixes, Except.toOption] at hpass
    | ok fixes => exact ⟨fixes, rfl, by simpa [hfixes, Except.toOption] using hpass⟩
  have hclean := hclaim config "a.cs" overloadedCall fixes (by decide +kernel) (by decide +kernel)
    hfixes
  rw [hsources] at hclean
  revert hclean
  decide +kernel

end ZeroAlloc.Compilation

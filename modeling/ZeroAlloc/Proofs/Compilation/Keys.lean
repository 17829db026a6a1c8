import ZeroAlloc.Proofs.CSharp.Backward
import ZeroAlloc.Proofs.Compilation.Files
import ZeroAlloc.Proofs.VisualBasic.Backward
set_option autoImplicit false

/-! # Keys of reports

No two sites that a source writes down start at one place. So as long as arrays that the compiler
makes are passed over, the key of a report, which is made of its file and its position, tells it
from all others (`startsApart_and_nodup_key`). -/

namespace ZeroAlloc

/-! ## Sites of a document -/

theorem Language.pairwise_startsApart_sites (language : Language) (ls : List Lexeme) :
    (language.sites ls).Pairwise Site.StartsApart := by
  cases language with
  | csharp => exact CSharp.pairwise_startsApart_sites ls
  | visualBasic => exact VisualBasic.pairwise_startsApart_sites ls

namespace Document

/-- The spans of two sites start at different places, unless the compiler makes one of them. -/
def StartsApart (doc : Document) (s other : Site) : Prop :=
  s.origin.isCompilerGenerated = false → other.origin.isCompilerGenerated = false →
    (doc.siteSpan s).start ≠ (doc.siteSpan other).start

theorem pairwise_startsApart_read (language : Language) (path source : String) :
    (read language path source).sites.Pairwise (read language path source).StartsApart := by
  refine (language.pairwise_startsApart_sites _).imp_of_mem fun {s other} hs hother h => ?_
  intro hwritten hwritten' heq
  have hfirst {s : Site} (hs : s ∈ (read language path source).sites) :
      s.first < (read language path source).tokens.toList.length :=
    Nat.lt_of_le_of_lt (Language.liesIn_of_mem_sites hs).first_le_last
      (last_lt_length_of_mem_sites hs)
  exact h hwritten hwritten' (tokenStart_inj (hfirst hs) (hfirst hother) heq)

/-- A site that the compiler makes is not reported if such sites are passed over. -/
theorem isCompilerGenerated_of_mem_findings {doc : Document} {policy : Policy} {finding : Finding}
    (hskip : policy.compilerGenerated = .skip) (h : finding ∈ doc.findings policy) :
    finding.site.origin.isCompilerGenerated = false := by
  obtain ⟨-, hflag, -⟩ := of_mem_findings h
  rw [Bool.eq_false_iff]
  intro hgenerated
  rw [Site.decision, hgenerated, hskip] at hflag
  split at hflag <;> simp at hflag

end Document

/-! ## Keys -/

/-- Rows that end behind a mark, which occurs no further on, are split there in one way. -/
theorem append_inj_of_notMem {α : Type} {c : α} {xs ys xs' ys' : List α} (hys : c ∉ ys)
    (hys' : c ∉ ys') (h : xs ++ c :: ys = xs' ++ c :: ys') : xs = xs' ∧ ys = ys' := by
  rcases List.append_eq_append_iff.1 h with ⟨mid, rfl, hmid⟩ | ⟨mid, rfl, hmid⟩
  · cases mid with
    | nil => simpa using hmid
    | cons d mid =>
      obtain ⟨rfl, rfl⟩ := List.cons.inj hmid
      exact absurd (by simp) hys
  · cases mid with
    | nil => simpa using hmid.symm
    | cons d mid =>
      obtain ⟨rfl, rfl⟩ := List.cons.inj hmid
      exact absurd (by simp) hys'

/-- The digits of a number tell the number. -/
theorem toList_toString_inj {m n : Nat} (h : (toString m).toList = (toString n).toList) :
    m = n := by
  rw [Nat.toString_eq_ofList_toDigits, Nat.toString_eq_ofList_toDigits, String.toList_ofList,
    String.toList_ofList] at h
  rw [← @Nat.ofDigitChars_ten_toDigits m, h, Nat.ofDigitChars_ten_toDigits]

theorem notMem_toList_toString {c : Char} (hc : c.isDigit = false) (n : Nat) :
    c ∉ (toString n).toList := by
  rw [Nat.toString_eq_ofList_toDigits, String.toList_ofList]
  intro hmem
  rw [Nat.isDigit_of_mem_toDigits (by decide) (by decide) hmem] at hc
  cases hc

/-- The key of a report tells its file and its position. -/
theorem Diagnostic.eq_of_key_eq {d other : Diagnostic} (hrule : d.ruleId = other.ruleId)
    (h : d.key = other.key) :
    d.file = other.file ∧ d.line = other.line ∧ d.column = other.column := by
  have hkey (d : Diagnostic) : d.key.toList = d.ruleId.toList ++ '|' :: (d.file.toList ++
      '|' :: ((toString d.line).toList ++ ':' :: (toString d.column).toList)) := by
    simp [key]
  have hlist := congrArg String.toList h
  rw [hkey, hkey, hrule] at hlist
  have hrest := (List.cons.inj (List.append_cancel_left hlist)).2
  -- a path may hold the mark too, but behind the last one there are only digits and a colon
  have hposition (d : Diagnostic) :
      '|' ∉ (toString d.line).toList ++ ':' :: (toString d.column).toList := by
    rw [List.mem_append, List.mem_cons]
    rintro (h | h | h)
    · exact notMem_toList_toString (by decide) _ h
    · exact absurd h (by decide)
    · exact notMem_toList_toString (by decide) _ h
  obtain ⟨hfile, hrest⟩ := append_inj_of_notMem (hposition d) (hposition other) hrest
  obtain ⟨hline, hcolumn⟩ := append_inj_of_notMem (notMem_toList_toString (by decide) _)
    (notMem_toList_toString (by decide) _) hrest
  exact ⟨String.toList_inj.1 hfile, toList_toString_inj hline, toList_toString_inj hcolumn⟩

namespace Compilation

variable {c : Compilation} {doc : Document} {sources : List (String × String)}

/-- The reports on a file have different keys. -/
theorem pairwise_key_diagnostics (hread : IsReadFrom sources doc)
    (hskip : c.config.compilerGenerated = .skip) :
    ((c.findings doc).map (c.diagnostic doc)).Pairwise fun d other => d.key ≠ other.key := by
  have hsites := Document.pairwise_startsApart_read doc.language doc.path doc.source
  rw [← hread.read] at hsites
  have hfindings := hsites.sublist (doc.map_site_findings_sublist c.policy)
  rw [List.pairwise_map] at hfindings ⊢
  refine hfindings.imp_of_mem fun {finding other} hin hin' happart hkey => ?_
  refine happart (Document.isCompilerGenerated_of_mem_findings hskip hin)
    (Document.isCompilerGenerated_of_mem_findings hskip hin') ?_
  have hcuts {finding : Finding} (h : finding ∈ c.findings doc) : ∃ before piece behind,
      (doc.siteSpan finding.site).CutsOut doc.source.toList before piece behind := by
    have hmem := (Document.of_mem_findings h).1
    rw [hread.read] at hmem ⊢
    exact (Document.wellFormed_of_mem_sites hmem).cutsOut
  obtain ⟨before, piece, behind, hcut⟩ := hcuts hin
  obtain ⟨before', piece', behind', hcut'⟩ := hcuts hin'
  obtain ⟨-, hline, hcolumn⟩ := Diagnostic.eq_of_key_eq (by rfl) hkey
  exact hcut.start_eq hcut' (congrArg₂ Text.Position.mk hline hcolumn)

/-- What is reported and what is silenced are the reports on the findings. -/
theorem perm_fileResult (c : Compilation) (doc : Document) :
    ((c.fileResult doc).diagnostics ++
      (c.fileResult doc).suppressed.map SuppressedDiagnostic.diagnostic).Perm
        ((c.findings doc).map (c.diagnostic doc)) := by
  rw [fileResult, Suppression.map_diagnostic_suppressed, Suppression.active]
  refine List.perm_append_comm.trans ?_
  exact List.filter_append_perm _ _

/-- Sites that a source writes down start apart; so, if all others are passed over, the reports on
files with distinct paths have distinct keys, whether they are silenced or not. -/
theorem startsApart_and_nodup_key :
    (∀ language path source, (Document.read language path source).sites.Pairwise
      (Document.read language path source).StartsApart) ∧
    ∀ config sources, config.compilerGenerated = .skip → (sources.map Prod.fst).Nodup →
      (((ofSources config sources).result.diagnostics ++
        (ofSources config sources).result.suppressed.map SuppressedDiagnostic.diagnostic).map
          Diagnostic.key).Nodup := by
  refine ⟨Document.pairwise_startsApart_read, fun config sources hskip hdistinct => ?_⟩
  generalize hc : ofSources config sources = c
  have hperm : (c.result.diagnostics ++
      c.result.suppressed.map SuppressedDiagnostic.diagnostic).Perm
        (c.files.flatMap fun doc => (c.findings doc).map (c.diagnostic doc)) := by
    rw [result_eq]
    dsimp only
    rw [List.map_flatMap]
    refine (List.flatMap_append_perm _ _ _).trans ?_
    exact List.Perm.flatMap_left _ fun doc _ => c.perm_fileResult doc
  rw [(hperm.map Diagnostic.key).nodup_iff, List.Nodup, List.pairwise_map, List.pairwise_flatMap]
  subst hc
  constructor
  · intro doc hdoc
    exact pairwise_key_diagnostics (isReadFrom_of_mem_files hdoc) hskip
  · refine (pairwise_path_lt_files hdistinct).imp fun {a b} hlt d hd e he hkey => ?_
    obtain ⟨finding, -, rfl⟩ := List.mem_map.1 hd
    obtain ⟨finding', -, rfl⟩ := List.mem_map.1 he
    obtain ⟨hfile, -⟩ := Diagnostic.eq_of_key_eq (by rfl) hkey
    have hpath : a.path = b.path := hfile
    rw [hpath] at hlt
    exact String.lt_irrefl _ hlt

/-- A file with an initializer list, and one with an allocation that is silenced. -/
def silencedAllocation : List (String × String) := [
  ("a.cs", "int[] a = \x7b\x7d;"),
  ("b.cs", "var b = new int[]\x7b\x7d; // emptycheck:ignore CA1825")]

theorem nodup_key_silencedAllocation : Config.standard.compilerGenerated = .skip ∧
    (silencedAllocation.map Prod.fst).Nodup ∧
    (silencedAllocation.filterMap documentOf?).map (·.sites.length) = [1, 1] ∧
    (((ofSources .standard silencedAllocation).result.diagnostics ++
      (ofSources .standard silencedAllocation).result.suppressed.map
        SuppressedDiagnostic.diagnostic).map Diagnostic.key).Nodup :=
  ⟨rfl, by decide, by decide +kernel,
    startsApart_and_nodup_key.2 .standard silencedAllocation rfl (by decide)⟩

end Compilation

end ZeroAlloc

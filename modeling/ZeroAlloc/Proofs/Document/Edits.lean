import ZeroAlloc.Proofs.Document.WellFormed
import ZeroAlloc.Proofs.Replacement
set_option autoImplicit false

/-! # Edits and findings

In a document that was read from a source every finding has an edit
(`exists_edit?_of_mem_findings`), and an edit tells where the site of its finding starts
(`start_eq_of_edit?_eq`). -/

namespace ZeroAlloc

theorem Language.typeArgument?_ne_empty {language : Language} {s : Site} {argument : String}
    (h : s.element.IsSpelled) (hargument : language.typeArgument? s = some argument) :
    argument ≠ "" := by
  obtain ⟨text, htext, rfl⟩ := Option.map_eq_some_iff.1 hargument
  intro hempty
  exact h.text_ne_empty htext (String.append_eq_empty_iff.1 hempty).1

namespace Document

section Read

variable {language : Language} {path source : String} {factory : Factory}

/-- Nothing is reported that cannot be replaced. -/
theorem exists_edit?_of_mem_findings {policy : Policy} {finding : Finding}
    (h : finding ∈ (read language path source).findings policy) :
    ∃ e, (read language path source).edit? factory finding = some e := by
  obtain ⟨hsite, _, hargument⟩ := of_mem_findings h
  exact exists_edit? (Language.typeArgument?_ne_empty (isProper_of_mem_sites hsite).element
    hargument)

/-- The edits for findings fit into the source. -/
theorem fitsIn_of_mem_edits {policy : Policy} {fs : List Finding}
    (hfs : ∀ f ∈ fs, f ∈ (read language path source).findings policy) {e : Edit}
    (h : e ∈ (read language path source).edits factory fs) : e.FitsIn 0 source.toList := by
  obtain ⟨finding, hmem, hedit⟩ := List.mem_filterMap.1 (mem_of_mem_keepDisjoint h)
  obtain ⟨text⟩ := exists_siteText (of_mem_findings (hfs finding hmem)).1
  exact fitsIn_of_edit? text hedit

/-- An edit removes text exactly where an allocation is written. -/
theorem start_lt_stop_of_edit?_iff {finding : Finding} {e : Edit}
    (hsite : finding.site ∈ (read language path source).sites)
    (h : (read language path source).edit? factory finding = some e) :
    e.start < e.stop ↔ finding.site.origin.isCompilerGenerated = false := by
  cases horigin : finding.site.origin with
  | paramArray needsSeparator =>
    obtain ⟨_, hstop, _⟩ := edit?_paramArray horigin h
    simp [hstop, Origin.isCompilerGenerated]
  | _ =>
    obtain ⟨hstart, hstop, _⟩ := edit?_written (by rw [horigin]; rfl) h
    have hlong := (wellFormed_of_mem_sites hsite).start_lt_stop
    simp [hstart, hstop, hlong, Origin.isCompilerGenerated]

/-- Sites with one edit start at one place. -/
theorem start_eq_of_edit?_eq {finding other : Finding} {e : Edit}
    (hsite : finding.site ∈ (read language path source).sites)
    (hsite' : other.site ∈ (read language path source).sites)
    (h : (read language path source).edit? factory finding = some e)
    (h' : (read language path source).edit? factory other = some e) :
    ((read language path source).siteSpan finding.site).start =
      ((read language path source).siteSpan other.site).start := by
  have hwritten := (start_lt_stop_of_edit?_iff hsite h).symm.trans
    (start_lt_stop_of_edit?_iff hsite' h')
  cases horigin : finding.site.origin with
  | paramArray needsSeparator =>
    cases horigin' : other.site.origin with
    | paramArray needsSeparator' =>
      have hgenerated : finding.site.origin.isCompilerGenerated = true := by rw [horigin]; rfl
      have hgenerated' : other.site.origin.isCompilerGenerated = true := by rw [horigin']; rfl
      obtain ⟨hoffset, _, _⟩ := edit?_paramArray horigin h
      obtain ⟨hoffset', _, _⟩ := edit?_paramArray horigin' h'
      -- the edits stand at one bracket, which closes one call
      have hlast : finding.site.last = other.site.last :=
        tokenStart_inj (last_lt_length_of_mem_sites hsite) (last_lt_length_of_mem_sites hsite')
          (hoffset.symm.trans hoffset')
      have hfirst := (Language.liesIn_of_mem_sites hsite).first_eq_of_last_eq
        (Language.liesIn_of_mem_sites hsite') hgenerated hgenerated' hlast
      change tokenStart _ _ = tokenStart _ _
      rw [hfirst]
    | _ => simp [horigin, horigin', Origin.isCompilerGenerated] at hwritten
  | _ =>
    have hnot : finding.site.origin.isCompilerGenerated = false := by rw [horigin]; rfl
    obtain ⟨hstart, _, _⟩ := edit?_written hnot h
    obtain ⟨hstart', _, _⟩ := edit?_written (hwritten.1 hnot) h'
    exact hstart.symm.trans hstart'

end Read

end Document

end ZeroAlloc

import Mathlib.Data.List.Induction
import ZeroAlloc.Proofs.Document.WellFormed
import ZeroAlloc.Proofs.Edit.Splice
import ZeroAlloc.Replacement
set_option autoImplicit false

/-! # The edits of a document

The edits for the findings of a document fit into its source, and those that are kept do not touch
each other. `RemovedBy` says what one cut of a fixed text does to the site of its finding. -/

namespace ZeroAlloc

open Text (byteLength byteLength_append)

/-! ## Kept edits -/

theorem keepDisjoint_concat (edits : List Edit) (e : Edit) :
    keepDisjoint (edits ++ [e]) =
      if (keepDisjoint edits).any (·.overlaps e) then keepDisjoint edits
      else keepDisjoint edits ++ [e] := by
  rw [keepDisjoint, List.foldl_append]
  rfl

theorem mem_of_mem_keepDisjoint {edits : List Edit} {e : Edit} (h : e ∈ keepDisjoint edits) :
    e ∈ edits := by
  induction edits using List.reverseRecOn with
  | nil => exact h
  | append_singleton edits last ih =>
    rw [keepDisjoint_concat] at h
    split at h
    · exact List.mem_append_left _ (ih h)
    · rcases List.mem_append.1 h with h | h
      · exact List.mem_append_left _ (ih h)
      · exact List.mem_append_right _ h

theorem pairwise_keepDisjoint (edits : List Edit) :
    (keepDisjoint edits).Pairwise fun e other => e.overlaps other = false := by
  induction edits using List.reverseRecOn with
  | nil => exact .nil
  | append_singleton edits last ih =>
    rw [keepDisjoint_concat]
    split
    · exact ih
    · rename_i hfree
      simp only [List.any_eq_true, not_exists, not_and, Bool.not_eq_true] at hfree
      refine List.pairwise_append.2 ⟨ih, List.pairwise_singleton .., fun e he other hother => ?_⟩
      obtain rfl := List.mem_singleton.1 hother
      exact hfree e he

/-- An edit is left out only if it overlaps one that is kept. A kept edit overlaps itself. -/
theorem exists_overlaps_of_mem {edits : List Edit} {e : Edit} (h : e ∈ edits) :
    ∃ kept ∈ keepDisjoint edits, kept.overlaps e = true := by
  induction edits using List.reverseRecOn with
  | nil => cases h
  | append_singleton edits last ih =>
    rw [keepDisjoint_concat]
    rcases List.mem_append.1 h with h | h
    · obtain ⟨kept, hkept, hoverlap⟩ := ih h
      split
      · exact ⟨kept, hkept, hoverlap⟩
      · exact ⟨kept, List.mem_append_left _ hkept, hoverlap⟩
    · obtain rfl := List.mem_singleton.1 h
      split
      · rename_i hany
        exact List.any_eq_true.1 hany
      · exact ⟨e, List.mem_append_right _ h, by simp [Edit.overlaps]⟩

/-- An edit that is kept at its turn stays. -/
theorem keepDisjoint_isPrefix (before after : List Edit) :
    keepDisjoint before <+: keepDisjoint (before ++ after) := by
  induction after using List.reverseRecOn with
  | nil => simp
  | append_singleton after last ih =>
    rw [← List.append_assoc, keepDisjoint_concat]
    split
    · exact ih
    · exact ih.trans (List.prefix_append _ _)

/-- At its turn, an edit is kept unless it overlaps one that was kept before. -/
theorem keepDisjoint_turn (before after : List Edit) (e : Edit) :
    (∃ later, keepDisjoint (before ++ e :: after) = keepDisjoint before ++ e :: later) ∨
      ∃ kept ∈ keepDisjoint before, kept.overlaps e = true := by
  by_cases hfree : (keepDisjoint before).any (·.overlaps e) = true
  · exact .inr (List.any_eq_true.1 hfree)
  · have hturn := keepDisjoint_isPrefix (before ++ [e]) after
    rw [keepDisjoint_concat, if_neg hfree, List.append_assoc] at hturn
    obtain ⟨later, hlater⟩ := hturn
    refine .inl ⟨later, ?_⟩
    rw [List.append_assoc] at hlater
    exact hlater.symm

namespace Document

variable {doc : Document} {factory : Factory} {finding : Finding}

/-! ## Findings and edits -/

/-- A finding reports a site of its document. -/
theorem of_mem_findings {policy : Policy}
    (h : finding ∈ doc.findings policy) : finding.site ∈ doc.sites ∧
      finding.site.decision doc.language doc.constants policy = .flag ∧
      doc.language.typeArgument? finding.site = some finding.typeArgument := by
  unfold findings at h
  split at h
  · obtain ⟨⟨s, index⟩, hsite, hflag⟩ := List.mem_filterMap.1 h
    dsimp only at hflag
    split at hflag
    · rename_i hdecision
      obtain ⟨argument, hargument, rfl⟩ := Option.map_eq_some_iff.1 hflag
      exact ⟨List.fst_mem_of_mem_zipIdx hsite, of_decide_eq_true hdecision, hargument⟩
    · cases hflag
  · cases h

/-- A finding has an edit, unless its type argument is empty. -/
theorem exists_edit? (hargument : finding.typeArgument ≠ "") :
    ∃ e, doc.edit? factory finding = some e := by
  unfold edit?
  dsimp only
  rw [if_neg (by simpa [String.isEmpty_iff] using hargument)]
  split
  · exact ⟨_, rfl⟩
  · exact ⟨_, rfl⟩

/-- An edit of a call is an insertion. -/
theorem edit?_paramArray {e : Edit} {needsSeparator : Bool}
    (horigin : finding.site.origin = .paramArray needsSeparator)
    (h : doc.edit? factory finding = some e) :
    e.start = doc.insertionOffset finding.site ∧ e.stop = e.start ∧
      e.replacement = (if needsSeparator then ", " else "") ++ doc.replacement factory finding := by
  unfold edit? at h
  rw [horigin] at h
  dsimp only at h
  split at h
  · cases h
  · cases h
    exact ⟨rfl, rfl, rfl⟩

/-- An edit of a written allocation replaces its site. -/
theorem edit?_written {e : Edit} (horigin : finding.site.origin.isCompilerGenerated = false)
    (h : doc.edit? factory finding = some e) :
    e.start = (doc.siteSpan finding.site).start ∧ e.stop = (doc.siteSpan finding.site).stop ∧
      e.replacement = doc.replacement factory finding := by
  unfold edit? at h
  dsimp only at h
  split at h
  · cases h
  · split at h
    · rename_i hparam
      rw [hparam] at horigin
      cases horigin
    · cases h
      exact ⟨rfl, rfl, rfl⟩

theorem fitsIn_of_edit? {e : Edit} (text : SiteText doc finding.site)
    (h : doc.edit? factory finding = some e) : e.FitsIn 0 doc.source.toList := by
  have hwritten (horigin : finding.site.origin.isCompilerGenerated = false) :
      e.FitsIn 0 doc.source.toList := by
    obtain ⟨hstart, hstop, _⟩ := edit?_written horigin h
    refine ⟨text.before, text.inside ++ text.last, text.behind, text.source, ?_, ?_⟩
    · rw [hstart, text.start, Nat.zero_add]
    · rw [hstop, hstart, text.start, text.stop]
  cases horigin : finding.site.origin with
  | explicit => exact hwritten (by rw [horigin]; rfl)
  | implicitInitializer => exact hwritten (by rw [horigin]; rfl)
  | paramArray needsSeparator =>
    obtain ⟨hstart, hstop, _⟩ := edit?_paramArray horigin h
    refine ⟨text.before ++ text.inside, [], text.last ++ text.behind, ?_, ?_, hstop⟩
    · simp [text.source]
    · rw [hstart, text.insertion, Nat.zero_add]

/-! ## Cuts and sites -/

/-- What a cut does to the site of its finding; `later` is the text behind the removed piece. The
text of a written allocation gives way to the call of the factory. Where a call leaves out a
parameter array, nothing is removed, and the new argument stands just before the closing bracket of
the call. -/
def RemovedBy (doc : Document) (factory : Factory) (finding : Finding) (c : Edit.Cut)
    (later : List Char) : Prop :=
  match finding.site.origin with
  | .paramArray needsSeparator =>
    c.removed = [] ∧ later.head? = some ')' ∧
      c.edit.start + 1 = (doc.siteSpan finding.site).stop ∧
      c.edit.replacement =
        (if needsSeparator then ", " else "") ++ doc.replacement factory finding
  | _ =>
    c.edit.start = (doc.siteSpan finding.site).start ∧
      c.removed = (doc.textUnder (doc.siteSpan finding.site)).toList ∧
      c.edit.replacement = doc.replacement factory finding

/-- A cut at the place of the edit for a finding does with its site what it should. -/
theorem removedBy_of_edit? {c : Edit.Cut} {earlier later : List Char}
    (text : SiteText doc finding.site) (h : doc.edit? factory finding = some c.edit)
    (hsource : doc.source.toList = earlier ++ (c.removed ++ later))
    (hstart : c.edit.start = byteLength earlier)
    (hstop : c.edit.stop = c.edit.start + byteLength c.removed) :
    doc.RemovedBy factory finding c later := by
  have hwritten (horigin : finding.site.origin.isCompilerGenerated = false) :
      c.edit.start = (doc.siteSpan finding.site).start ∧
        c.removed = (doc.textUnder (doc.siteSpan finding.site)).toList ∧
        c.edit.replacement = doc.replacement factory finding := by
    obtain ⟨hfirst, hlast, hreplacement⟩ := edit?_written horigin h
    refine ⟨hfirst, ?_, hreplacement⟩
    rw [textUnder, String.toList_ofList, ← hfirst, ← hlast, hstop, hstart, hsource,
      Text.sliceBytes_append]
  unfold RemovedBy
  cases horigin : finding.site.origin with
  | explicit => exact hwritten (by rw [horigin]; rfl)
  | implicitInitializer => exact hwritten (by rw [horigin]; rfl)
  | paramArray needsSeparator =>
    obtain ⟨hplace, hempty, hreplacement⟩ := edit?_paramArray horigin h
    have hclose : text.last = [')'] := text.closed (by rw [horigin]; rfl)
    -- nothing is removed, and both splits of the source are at the insertion offset
    have hremoved : c.removed = [] := Text.eq_nil_of_byteLength (by omega)
    have hlater : later = text.last ++ text.behind := by
      have hsplit : earlier ++ later =
          (text.before ++ text.inside) ++ (text.last ++ text.behind) := by
        rw [hremoved] at hsource
        simpa [text.source] using hsource.symm
      exact Text.append_right_inj_of_byteLength hsplit (by rw [← hstart, hplace, text.insertion])
    refine ⟨hremoved, by rw [hlater, hclose]; rfl, ?_, hreplacement⟩
    rw [hplace, text.insertion, text.stop, hclose, byteLength_append, byteLength_append]
    simp only [byteLength]
    rw [Nat.add_assoc]
    rfl

end Document

end ZeroAlloc

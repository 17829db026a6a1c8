import ZeroAlloc.Proofs.Edit.Application
import ZeroAlloc.Proofs.Indexed.Attempt
set_option autoImplicit false

/-! # Edits in place

Sorted edits are made in one text, from the last to the first. A range of the text can be exchanged
only if it starts and ends at boundaries of the text as it then is, and not before it starts. Once
the edits have passed their checks, no step fails (`applyEdits_eq_done`); and whatever the edits
are, their result is characterised by their places and overlaps alone
(`Edit.apply_characterisation`). -/

namespace ZeroAlloc

namespace Indexed

open Text (byteLength)

/-! ## Exchanging ranges -/

/-- Put the replacement of an edit in the place of its range. -/
def replaceRange (text : List Char) (e : Edit) : Attempt (List Char) :=
  if Text.isBoundary e.start text && Text.isBoundary e.stop text then do
    let (start, stop) ← range e.start e.stop
    pure (Text.takeBytes start text ++ (e.replacement.toList ++ Text.dropBytes stop text))
  else .fault .slice

/-- Make sorted edits in a text, the last one first. -/
def replaceBackward (text : List Char) (sorted : List Edit) : Attempt (List Char) :=
  sorted.reverse.foldlM replaceRange text

/-- Apply edits to a copy of the source, if each has its place in the source and no two neighbours
touch. -/
def applyEdits (source : String) (edits : List Edit) : Attempt (Except EditError String) :=
  let cs := source.toList
  let sorted := edits.mergeSort Edit.comesBefore
  match sorted.findSome? (Edit.fault? cs) with
  | some error => pure (.error error)
  | none =>
    match Edit.conflict? sorted with
    | some error => pure (.error error)
    | none => do
      let text ← replaceBackward cs sorted
      pure (.ok (String.ofList text))

/-- An edit that fits into the text as it is can be made. -/
theorem replaceRange_eq_done {text : List Char} {e : Edit} (h : e.FitsIn 0 text) :
    replaceRange text e = .done (e.replaceIn text) := by
  obtain ⟨pre, removed, post, rfl, hstart, hstop⟩ := h
  rw [Nat.zero_add] at hstart
  have hfirst : Text.isBoundary e.start (pre ++ (removed ++ post)) = true := by
    rw [hstart]
    exact Text.isBoundary_append pre _
  have hlast : Text.isBoundary e.stop (pre ++ (removed ++ post)) = true := by
    rw [hstop, hstart, ← Text.byteLength_append, ← List.append_assoc]
    exact Text.isBoundary_append _ post
  rw [replaceRange, if_pos (by rw [hfirst, hlast]; rfl), range_eq_done (by omega)]
  rfl

/-- Sorted edits that fit into a text and do not touch are made without a fault: when the turn comes
to an edit, the later ones have left its range as it was. -/
theorem replaceBackward_eq_done {text : List Char} {es : List Edit}
    (hfits : ∀ e ∈ es, e.FitsIn 0 text)
    (hsorted : es.Pairwise fun e other => e.stop ≤ other.start) :
    replaceBackward text es = .done (Edit.replaceBackward text es) := by
  induction es with
  | nil => rfl
  | cons e es ih =>
    have hmore := ih (List.forall_mem_cons.1 hfits).2 (List.pairwise_cons.1 hsorted).2
    rw [replaceBackward, List.reverse_cons, List.foldlM_append, ← replaceBackward, hmore,
      Attempt.done_bind, List.foldlM_cons,
      replaceRange_eq_done (Edit.FitsIn.of_replaceBackward hfits hsorted),
      ← Edit.replaceBackward_cons]
    rfl

/-- Applying edits fails at no step, whatever the edits are: what does not fit is told by an error
before any text is exchanged. -/
theorem applyEdits_eq_done (source : String) (edits : List Edit) :
    applyEdits source edits = .done (Edit.apply source edits) := by
  cases hfault : (edits.mergeSort Edit.comesBefore).findSome? (Edit.fault? source.toList) with
  | some error => simp only [applyEdits, Edit.apply, hfault, Attempt.pure_eq_done]
  | none =>
    cases hconflict : Edit.conflict? (edits.mergeSort Edit.comesBefore) with
    | some error => simp only [applyEdits, Edit.apply, hfault, hconflict, Attempt.pure_eq_done]
    | none =>
      obtain ⟨hfits, hsorted⟩ := Edit.fitsIn_and_stop_le_start hfault hconflict
      simp only [applyEdits, Edit.apply, hfault, hconflict,
        replaceBackward_eq_done hfits hsorted, Attempt.done_bind, Attempt.pure_eq_done]

end Indexed

namespace Edit

/-! ## The whole result -/

/-- What becomes of a list of edits that are made in place, from the last to the first. No step
fails. The edits are applied exactly when each has its place in the source and no two entries touch
the same bytes. The text is then the source with the pieces of the edits exchanged, from front to
back. The result, error or text, does not depend on the order of the list. -/
theorem apply_characterisation (source : String) (edits : List Edit) :
    Indexed.applyEdits source edits = .done (apply source edits) ∧
    ((∃ text, Indexed.applyEdits source edits = .done (.ok text)) ↔
      (∀ e ∈ edits, e.IsPlacedIn source) ∧
        edits.Pairwise fun e other => e.overlaps other = false) ∧
    (∀ text, Indexed.applyEdits source edits = .done (.ok text) → ∃ head cuts,
      (cuts.map Cut.edit).Perm edits ∧
      ((cuts.map Cut.edit).Pairwise fun e other => e.stop ≤ other.start) ∧
      IsSplice 0 source.toList text.toList head cuts) ∧
    ∀ edits', edits'.Perm edits →
      Indexed.applyEdits source edits' = Indexed.applyEdits source edits := by
  have hdone (text : String) : Indexed.applyEdits source edits = .done (.ok text) ↔
      apply source edits = .ok text := by
    rw [Indexed.applyEdits_eq_done, Indexed.Attempt.done.injEq]
  simp only [hdone]
  refine ⟨Indexed.applyEdits_eq_done source edits, ?_, ?_, fun edits' hperm => ?_⟩
  · constructor
    · rintro ⟨text, htext⟩
      exact (apply_eq_ok_iff.1 htext).1
    · intro h
      exact ⟨_, apply_eq_ok_iff.2 ⟨h, rfl⟩⟩
  · intro text htext
    obtain ⟨⟨hplaced, hapart⟩, rfl⟩ := apply_eq_ok_iff.1 htext
    have hfits : ∀ e ∈ edits, e.FitsIn 0 source.toList := fun e he => (hplaced e he).fitsIn
    have hsorted := pairwise_stop_le_start hfits hapart
    obtain ⟨head, cuts, hedits, hsplice⟩ :=
      exists_isSplice_splice (fun e he => hfits e (List.mem_mergeSort.1 he)) hsorted
    refine ⟨head, cuts, ?_, by rwa [hedits], by rwa [String.toList_ofList]⟩
    rw [hedits]
    exact List.mergeSort_perm edits comesBefore
  · rw [Indexed.applyEdits_eq_done, Indexed.applyEdits_eq_done, apply_eq_of_perm hperm source]

/-- Two insertions at one offset touch, so they cannot be applied, in either order. -/
example : apply "ab" [⟨1, 1, "x", ""⟩, ⟨1, 1, "y", ""⟩] = .error (.overlap (1, 1) (1, 1)) :=
  apply_eq_error_iff.2 (by cbv)

end Edit

end ZeroAlloc

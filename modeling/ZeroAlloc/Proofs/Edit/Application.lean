import Mathlib.Data.List.Pairwise
import ZeroAlloc.Proofs.Edit.Splice
set_option autoImplicit false

/-! # When edits can be applied

A list of edits is applied if and only if each edit has its place in the source and no two of them
touch the same bytes. Only neighbours of the sorted list are compared, which is enough since sorted
edits that do not touch their neighbours move forward through the text (`apart_of_conflict?`). The
order in which the edits are listed matters neither for the text nor for the error. -/

namespace ZeroAlloc

open Text (byteLength)

namespace Edit

/-- The edit replaces a range of the source that starts and ends where a character starts, or at
the end of the source. -/
structure IsPlacedIn (source : String) (e : Edit) : Prop where
  ordered : e.start ≤ e.stop
  inside : e.stop ≤ source.utf8ByteSize
  starts : ∃ pre post : String, source = pre ++ post ∧ e.start = pre.utf8ByteSize
  stops : ∃ pre post : String, source = pre ++ post ∧ e.stop = pre.utf8ByteSize

/-! ## The place of an edit -/

theorem isBoundary_toList_iff {n : Nat} {source : String} :
    Text.isBoundary n source.toList = true ↔
      ∃ pre post : String, source = pre ++ post ∧ n = pre.utf8ByteSize := by
  rw [Text.isBoundary_iff]
  constructor
  · rintro ⟨pre, post, hsource, rfl⟩
    refine ⟨String.ofList pre, String.ofList post, ?_, (Text.utf8ByteSize_ofList pre).symm⟩
    rw [← String.ofList_append, ← hsource, String.ofList_toList]
  · rintro ⟨pre, post, rfl, rfl⟩
    refine ⟨pre.toList, post.toList, String.toList_append, ?_⟩
    rw [← Text.utf8ByteSize_ofList, String.ofList_toList]

theorem byteLength_toList (source : String) :
    byteLength source.toList = source.utf8ByteSize := by
  rw [← Text.utf8ByteSize_ofList, String.ofList_toList]

/-- An edit without a fault has its place in the source. -/
theorem fault?_eq_none_iff {source : String} {e : Edit} :
    fault? source.toList e = none ↔ e.IsPlacedIn source := by
  rw [fault?, byteLength_toList]
  split
  next hout =>
    refine iff_of_false (by simp) ?_
    rintro ⟨hordered, hinside, -, -⟩
    simp only [Bool.or_eq_true, decide_eq_true_eq] at hout
    omega
  next hin =>
    simp only [Bool.or_eq_true, decide_eq_true_eq, not_or, Nat.not_lt] at hin
    split
    next hboundary =>
      rw [Bool.and_eq_true, isBoundary_toList_iff, isBoundary_toList_iff] at hboundary
      exact iff_of_true rfl ⟨hin.1, hin.2, hboundary.1, hboundary.2⟩
    next hboundary =>
      rw [Bool.and_eq_true, isBoundary_toList_iff, isBoundary_toList_iff] at hboundary
      exact iff_of_false (by simp) fun h => hboundary ⟨h.starts, h.stops⟩

theorem IsPlacedIn.fitsIn {source : String} {e : Edit} (h : e.IsPlacedIn source) :
    e.FitsIn 0 source.toList := by
  obtain ⟨pre, rest, hsource, hstart⟩ := Text.isBoundary_iff.1 (isBoundary_toList_iff.2 h.starts)
  obtain ⟨pre', post, hsource', hstop⟩ := Text.isBoundary_iff.1 (isBoundary_toList_iff.2 h.stops)
  have hordered := h.ordered
  obtain ⟨removed, rfl, rfl⟩ :=
    Text.exists_append_of_byteLength_le (hsource.symm.trans hsource') (by omega)
  refine ⟨pre, removed, post, hsource, by rw [hstart, Nat.zero_add], ?_⟩
  rw [hstop, hstart, Text.byteLength_append]

/-! ## Neighbours and pairs -/

theorem overlaps_eq_false {e other : Edit} (hstart : e.start < other.start)
    (hstop : e.stop ≤ other.start) : e.overlaps other = false := by
  simp only [overlaps, Bool.or_eq_false_iff, Bool.and_eq_false_iff, decide_eq_false_iff_not,
    beq_eq_false_iff_ne]
  omega

theorem start_le_start {e other : Edit} (h : e.comesBefore other = true) :
    e.start ≤ other.start := by
  simp only [comesBefore, Bool.or_eq_true, Bool.and_eq_true, decide_eq_true_eq, beq_iff_eq] at h
  omega

/-- Sorted edits of which no two neighbours touch do not touch at all: what stands behind an edit's
neighbour starts no earlier than that neighbour. -/
theorem apart_of_conflict? {es : List Edit} (hordered : ∀ e ∈ es, e.start ≤ e.stop)
    (hsorted : es.Pairwise fun e other => e.comesBefore other = true)
    (hconflict : conflict? es = none) :
    es.Pairwise fun e other => e.overlaps other = false := by
  fun_induction conflict? es with
  | case1 => cases hconflict
  | case2 e other es hoverlap ih =>
    obtain ⟨hfirst, hsorted⟩ := List.pairwise_cons.1 hsorted
    obtain ⟨-, hordered⟩ := List.forall_mem_cons.1 hordered
    refine List.pairwise_cons.2 ⟨?_, ih hordered hsorted hconflict⟩
    have hapart := Bool.eq_false_iff.2 hoverlap
    have hbefore := hfirst other List.mem_cons_self
    have hstop : e.stop ≤ other.start :=
      stop_le_start hbefore hapart (hordered other List.mem_cons_self)
    have hne : e.start ≠ other.start := by
      intro heq
      simp [overlaps, heq] at hapart
    have hstart : e.start < other.start := Nat.lt_of_le_of_ne (start_le_start hbefore) hne
    intro later hlater
    rcases List.mem_cons.1 hlater with rfl | hlater
    · exact hapart
    · have hle := start_le_start (List.rel_of_pairwise_cons hsorted hlater)
      exact overlaps_eq_false (Nat.lt_of_lt_of_le hstart hle) (Nat.le_trans hstop hle)
  | case3 es hes =>
    rcases es with _ | ⟨e, _ | ⟨other, es⟩⟩
    · exact List.Pairwise.nil
    · exact List.pairwise_singleton _ e
    · exact absurd rfl (hes e other es)

theorem isPlacedIn_of_findSome? {source : String} {edits : List Edit}
    (h : (edits.mergeSort comesBefore).findSome? (fault? source.toList) = none) :
    ∀ e ∈ edits, e.IsPlacedIn source := by
  intro e he
  rw [List.findSome?_eq_none_iff] at h
  exact fault?_eq_none_iff.1 (h e (List.mem_mergeSort.2 he))

section Checked

variable {source : String} {edits : List Edit}
  (hfault : (edits.mergeSort comesBefore).findSome? (fault? source.toList) = none)
  (hconflict : conflict? (edits.mergeSort comesBefore) = none)
include hfault hconflict

/-- Edits that pass the checks do not touch, whichever two are taken. -/
theorem pairwise_overlaps_of_checked : edits.Pairwise fun e other => e.overlaps other = false := by
  have hordered : ∀ e ∈ edits.mergeSort comesBefore, e.start ≤ e.stop := fun e he =>
    (isPlacedIn_of_findSome? hfault e (List.mem_mergeSort.1 he)).ordered
  have hsorted := apart_of_conflict? hordered (pairwise_comesBefore_mergeSort edits) hconflict
  exact ((List.mergeSort_perm edits comesBefore).pairwise_iff
    fun {e other} h => (overlaps_comm other e).trans h).1 hsorted

/-- Sorted, edits that pass the checks fit into the source one behind the other. -/
theorem fitsIn_and_stop_le_start :
    (∀ e ∈ edits.mergeSort comesBefore, e.FitsIn 0 source.toList) ∧
      (edits.mergeSort comesBefore).Pairwise fun e other => e.stop ≤ other.start := by
  have hfits : ∀ e ∈ edits, e.FitsIn 0 source.toList := fun e he =>
    (isPlacedIn_of_findSome? hfault e he).fitsIn
  exact ⟨fun e he => hfits e (List.mem_mergeSort.1 he),
    pairwise_stop_le_start hfits (pairwise_overlaps_of_checked hfault hconflict)⟩

end Checked

/-- What applying the edits comes to: either the sorted edits fit and the text is spliced, or there
is an error. -/
theorem apply_eq_ok_iff {source text : String} {edits : List Edit} :
    apply source edits = .ok text ↔
      ((∀ e ∈ edits, e.IsPlacedIn source) ∧
        edits.Pairwise fun e other => e.overlaps other = false) ∧
      String.ofList (splice 0 source.toList (edits.mergeSort comesBefore)) = text := by
  constructor
  · intro h
    simp only [apply] at h
    split at h
    · cases h
    next hfault =>
      split at h
      · cases h
      next hconflict =>
        obtain ⟨hfits, hsorted⟩ := fitsIn_and_stop_le_start hfault hconflict
        rw [replaceBackward_eq_splice hfits hsorted] at h
        exact ⟨⟨isPlacedIn_of_findSome? hfault, pairwise_overlaps_of_checked hfault hconflict⟩,
          Except.ok.inj h⟩
  · rintro ⟨⟨hplaced, hapart⟩, rfl⟩
    exact apply_eq_ok (fun e he => (hplaced e he).fitsIn) hapart

/-- The first fault in sorted order is the error; without faults it is the first conflict. -/
theorem apply_eq_error_iff {source : String} {edits : List Edit} {error : EditError} :
    apply source edits = .error error ↔
      ((edits.mergeSort comesBefore).findSome? (fault? source.toList)).or
        (conflict? (edits.mergeSort comesBefore)) = some error := by
  simp only [apply]
  split
  next hfault => simp [hfault]
  next hfault =>
    split
    next hconflict => simp [hfault, hconflict]
    next hconflict => simp [hfault, hconflict]

/-! ## The order of the list -/

/-- The range of the edit alone, which decides about errors. -/
def bare (e : Edit) : Edit :=
  ⟨e.start, e.stop, "", ""⟩

theorem range_eq_of_comesBefore {e other : Edit} (hbefore : e.comesBefore other = true)
    (hafter : other.comesBefore e = true) : e.start = other.start ∧ e.stop = other.stop := by
  simp only [comesBefore, Bool.or_eq_true, Bool.and_eq_true, decide_eq_true_eq,
    beq_iff_eq] at hbefore hafter
  omega

theorem conflict?_map_bare (es : List Edit) : conflict? (es.map bare) = conflict? es := by
  induction es with
  | nil => rfl
  | cons e es ih =>
    cases es with
    | nil => rfl
    | cons other es =>
      show (if e.overlaps other then _ else conflict? ((other :: es).map bare)) = _
      rw [ih, conflict?]
      rfl

theorem findSome?_fault?_map_bare (cs : List Char) (es : List Edit) :
    (es.map bare).findSome? (fault? cs) = es.findSome? (fault? cs) :=
  List.findSome?_map

section Perm

variable {edits edits' : List Edit} (hperm : edits'.Perm edits)
include hperm

theorem mergeSort_perm_mergeSort :
    (edits'.mergeSort comesBefore).Perm (edits.mergeSort comesBefore) :=
  (List.mergeSort_perm edits' comesBefore).trans
    (hperm.trans (List.mergeSort_perm edits comesBefore).symm)

/-- The sorted ranges do not depend on the order in which the edits are listed. -/
theorem map_bare_mergeSort_of_perm :
    (edits'.mergeSort comesBefore).map bare = (edits.mergeSort comesBefore).map bare := by
  have hsorted : ∀ es : List Edit, ((es.mergeSort comesBefore).map bare).Pairwise
      fun e other => e.comesBefore other = true :=
    fun es => List.pairwise_map.2 (pairwise_comesBefore_mergeSort es)
  refine List.Perm.eq_of_pairwise ?_ (hsorted edits') (hsorted edits)
    ((mergeSort_perm_mergeSort hperm).map bare)
  intro a b ha hb hab hba
  obtain ⟨e, -, rfl⟩ := List.mem_map.1 ha
  obtain ⟨other, -, rfl⟩ := List.mem_map.1 hb
  -- the order looks at the ranges only
  have hbefore : e.comesBefore other = true := hab
  obtain ⟨hstart, hstop⟩ := range_eq_of_comesBefore hbefore hba
  rw [bare, bare, hstart, hstop]

/-- Edits that do not touch are sorted in one way. -/
theorem mergeSort_eq_of_perm (hapart : edits.Pairwise fun e other => e.overlaps other = false) :
    edits'.mergeSort comesBefore = edits.mergeSort comesBefore := by
  refine List.Perm.eq_of_pairwise ?_ (pairwise_comesBefore_mergeSort edits')
    (pairwise_comesBefore_mergeSort edits) (mergeSort_perm_mergeSort hperm)
  intro e other he hother hbefore hafter
  by_contra hne
  have : Std.Symm fun e other : Edit => e.overlaps other = false :=
    ⟨fun e other h => (overlaps_comm other e).trans h⟩
  have hfalse : e.overlaps other = false := hapart.forall
    (hperm.mem_iff.1 (List.mem_mergeSort.1 he)) (List.mem_mergeSort.1 hother) hne
  simp [overlaps, (range_eq_of_comesBefore hbefore hafter).1] at hfalse

/-- The order in which the edits are listed does not matter, not even for the error. -/
theorem apply_eq_of_perm (source : String) : apply source edits' = apply source edits := by
  have hbare := map_bare_mergeSort_of_perm hperm
  have hfault : (edits'.mergeSort comesBefore).findSome? (fault? source.toList) =
      (edits.mergeSort comesBefore).findSome? (fault? source.toList) := by
    rw [← findSome?_fault?_map_bare, hbare, findSome?_fault?_map_bare]
  have hconflict : conflict? (edits'.mergeSort comesBefore) =
      conflict? (edits.mergeSort comesBefore) := by
    rw [← conflict?_map_bare, hbare, conflict?_map_bare]
  cases htext : apply source edits with
  | ok text =>
    -- The edits do not touch, so sorting leaves no choice.
    obtain ⟨⟨hplaced, hapart⟩, -⟩ := apply_eq_ok_iff.1 htext
    rw [← htext, apply, apply, mergeSort_eq_of_perm hperm hapart]
  | error error =>
    rw [apply_eq_error_iff] at htext ⊢
    rwa [hfault, hconflict]

end Perm

end Edit

end ZeroAlloc

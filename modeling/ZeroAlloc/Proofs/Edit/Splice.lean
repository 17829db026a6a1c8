import ZeroAlloc.Edit
import ZeroAlloc.Proofs.Text.Position
set_option autoImplicit false

/-! # Applying edits

Edits that fit into a text and do not touch each other can be applied, in whatever order they are
given. They are made from the last to the first, each in the text that the later ones leave, which
comes to putting the pieces together from front to back (`replaceBackward_append`). The outcome is
the text with exactly their pieces exchanged (`exists_isSplice_of_apply`). -/

namespace ZeroAlloc

open Text (byteLength byteLength_append)

/-! ## Edits that fit -/

/-- The edit replaces a piece of a text that starts at an offset. -/
def Edit.FitsIn (offset : Nat) (cs : List Char) (e : Edit) : Prop :=
  ∃ pre removed post, cs = pre ++ (removed ++ post) ∧ e.start = offset + byteLength pre ∧
    e.stop = e.start + byteLength removed

namespace Edit

/-- An edit that starts behind an initial part of a text fits into the rest. -/
theorem FitsIn.of_append {offset : Nat} {a b : List Char} {e : Edit}
    (h : e.FitsIn offset (a ++ b)) (hle : offset + byteLength a ≤ e.start) :
    e.FitsIn (offset + byteLength a) b := by
  obtain ⟨pre, removed, post, hcs, hstart, hstop⟩ := h
  obtain ⟨mid, rfl, rfl⟩ := Text.exists_append_of_byteLength_le hcs (by omega)
  refine ⟨mid, removed, post, rfl, ?_, hstop⟩
  rw [hstart, byteLength_append, Nat.add_assoc]

theorem fault?_eq_none {cs : List Char} {e : Edit} (h : e.FitsIn 0 cs) : fault? cs e = none := by
  obtain ⟨pre, removed, post, rfl, hstart, hstop⟩ := h
  have hfirst : Text.isBoundary e.start (pre ++ (removed ++ post)) = true := by
    rw [hstart, Nat.zero_add]
    exact Text.isBoundary_append pre _
  have hlast : Text.isBoundary e.stop (pre ++ (removed ++ post)) = true := by
    rw [hstop, hstart, Nat.zero_add, ← byteLength_append, ← List.append_assoc]
    exact Text.isBoundary_append _ post
  have hsize := byteLength_append pre (removed ++ post)
  rw [byteLength_append removed] at hsize
  simp only [fault?, hfirst, hlast, Bool.and_self, if_true, ite_eq_right_iff, reduceCtorEq,
    Bool.or_eq_true, decide_eq_true_eq]
  omega

/-! ## Edits that do not touch -/

theorem overlaps_comm (e other : Edit) : e.overlaps other = other.overlaps e := by
  rw [overlaps, overlaps, Bool.beq_comm, Bool.and_comm]

theorem conflict?_eq_none {es : List Edit}
    (h : es.Pairwise fun e other => e.overlaps other = false) : conflict? es = none := by
  fun_induction conflict? es with
  | case1 e other es hoverlap =>
    have := List.rel_of_pairwise_cons h List.mem_cons_self
    simp [hoverlap] at this
  | case2 e other es _ ih => exact ih h.tail
  | case3 => rfl

/-- Of two edits that do not touch, the earlier one ends before the later one starts. -/
theorem stop_le_start {e other : Edit} (hbefore : e.comesBefore other = true)
    (hapart : e.overlaps other = false) (hplace : other.start ≤ other.stop) :
    e.stop ≤ other.start := by
  simp only [comesBefore, overlaps, Bool.or_eq_true, Bool.and_eq_true, Bool.or_eq_false_iff,
    Bool.and_eq_false_iff, decide_eq_true_eq, decide_eq_false_iff_not, beq_iff_eq,
    beq_eq_false_iff_ne] at hbefore hapart
  omega

theorem pairwise_comesBefore_mergeSort (edits : List Edit) :
    (edits.mergeSort comesBefore).Pairwise fun e other => e.comesBefore other = true := by
  refine List.pairwise_mergeSort (fun a b c hab hbc => ?_) (fun a b => ?_) edits
  · simp only [comesBefore, Bool.or_eq_true, Bool.and_eq_true, decide_eq_true_eq,
      beq_iff_eq] at hab hbc ⊢
    omega
  · simp only [comesBefore, Bool.or_eq_true, Bool.and_eq_true, decide_eq_true_eq, beq_iff_eq]
    omega

theorem pairwise_overlaps_mergeSort {edits : List Edit}
    (hapart : edits.Pairwise fun e other => e.overlaps other = false) :
    (edits.mergeSort comesBefore).Pairwise fun e other => e.overlaps other = false :=
  ((List.mergeSort_perm edits comesBefore).pairwise_iff fun {e other} h =>
    (overlaps_comm other e).trans h).2 hapart

/-- Sorted, edits that do not touch each other stand one behind the other. -/
theorem pairwise_stop_le_start {cs : List Char} {edits : List Edit}
    (hfits : ∀ e ∈ edits, e.FitsIn 0 cs)
    (hapart : edits.Pairwise fun e other => e.overlaps other = false) :
    (edits.mergeSort comesBefore).Pairwise fun e other => e.stop ≤ other.start := by
  have hperm := List.mergeSort_perm edits comesBefore
  refine ((pairwise_comesBefore_mergeSort edits).and
    (pairwise_overlaps_mergeSort hapart)).imp_of_mem ?_
  rintro e other - hother ⟨hbefore, hoverlap⟩
  obtain ⟨_, removed, _, _, _, hstop⟩ := hfits other (hperm.mem_iff.1 hother)
  exact stop_le_start hbefore hoverlap (by omega)

/-! ## The spliced text -/

/-- The replacements and the pieces of text between them, from front to back. The text starts at
`offset`; the edits are sorted and do not touch. -/
def splice (offset : Nat) (cs : List Char) : List Edit → List Char
  | [] => cs
  | e :: es =>
    Text.takeBytes (e.start - offset) cs ++ e.replacement.toList ++
      splice e.stop (Text.dropBytes (e.stop - offset) cs) es

/-- The stretches of the spliced text: what stands in front of the first replacement, behind
`front`, and each replacement with the text behind it. -/
def stretches (offset : Nat) (front cs : List Char) : List Edit → List (List Char)
  | [] => [front ++ cs]
  | e :: es =>
    (front ++ Text.takeBytes (e.start - offset) cs) ::
      stretches e.stop e.replacement.toList (Text.dropBytes (e.stop - offset) cs) es

theorem flatten_stretches (offset : Nat) (front cs : List Char) (es : List Edit) :
    (stretches offset front cs es).flatten = front ++ splice offset cs es := by
  induction es generalizing offset front cs with
  | nil => simp [stretches, splice]
  | cons e es ih => simp [stretches, splice, ih]

theorem exists_eq_append_of_mem_stretches {offset : Nat} {front cs text : List Char}
    {es : List Edit} (h : text ∈ stretches offset front cs es) :
    (∃ rest, text = front ++ rest) ∨ ∃ e ∈ es, ∃ rest, text = e.replacement.toList ++ rest := by
  induction es generalizing offset front cs with
  | nil => exact .inl ⟨cs, List.mem_singleton.1 h⟩
  | cons e es ih =>
    rcases List.mem_cons.1 h with rfl | h
    · exact .inl ⟨_, rfl⟩
    · rcases ih h with hrest | ⟨other, hother, hrest⟩
      · exact .inr ⟨e, List.mem_cons_self, hrest⟩
      · exact .inr ⟨other, List.mem_cons_of_mem e hother, hrest⟩

/-- Each stretch but the first starts with the replacement of an edit. -/
theorem exists_edit_of_mem_tail_stretches {offset : Nat} {front cs text : List Char}
    {es : List Edit} (h : text ∈ (stretches offset front cs es).tail) :
    ∃ e ∈ es, ∃ rest, text = e.replacement.toList ++ rest := by
  cases es with
  | nil => cases h
  | cons e es =>
    rcases exists_eq_append_of_mem_stretches h with hrest | ⟨other, hother, hrest⟩
    · exact ⟨e, List.mem_cons_self, hrest⟩
    · exact ⟨other, List.mem_cons_of_mem e hother, hrest⟩

/-- A replaced piece of a text, with the text behind it up to the next one. -/
structure Cut where
  edit : Edit
  removed : List Char
  kept : List Char

/-- The text of the cut before the edit. -/
def Cut.old (c : Cut) : List Char :=
  c.removed ++ c.kept

/-- The text of the cut after the edit. -/
def Cut.new (c : Cut) : List Char :=
  c.edit.replacement.toList ++ c.kept

/-- The cuts behind a head turn one text, which starts at an offset, into another. Each stands at
the place of its edit. -/
structure IsSplice (offset : Nat) (cs ds head : List Char) (cuts : List Cut) : Prop where
  before : cs = head ++ cuts.flatMap Cut.old
  after : ds = head ++ cuts.flatMap Cut.new
  placed : ∀ earlier c later, cuts = earlier ++ c :: later →
    c.edit.start = offset + byteLength (head ++ earlier.flatMap Cut.old) ∧
      c.edit.stop = c.edit.start + byteLength c.removed

/-- A cut in front of the others. -/
theorem IsSplice.cons {e : Edit} {offset : Nat} {pre removed cs ds head : List Char}
    {cuts : List Cut} (hstart : e.start = offset + byteLength pre)
    (hstop : e.stop = e.start + byteLength removed) (h : IsSplice e.stop cs ds head cuts) :
    IsSplice offset (pre ++ (removed ++ cs)) (pre ++ (e.replacement.toList ++ ds)) pre
      (⟨e, removed, head⟩ :: cuts) where
  before := by simp [Cut.old, h.before]
  after := by simp [Cut.new, h.after]
  placed := by
    intro earlier c later hcuts
    cases earlier with
    | nil =>
      cases hcuts
      exact ⟨by simpa using hstart, hstop⟩
    | cons first earlier =>
      cases hcuts
      obtain ⟨hc, hremoved⟩ := h.placed earlier c later rfl
      refine ⟨?_, hremoved⟩
      rw [hc, hstop, hstart]
      simp only [List.flatMap_cons, Cut.old, byteLength_append]
      omega

section Cons

variable {e : Edit} {es : List Edit} {offset : Nat} {pre removed post : List Char}
  (hstart : e.start = offset + byteLength pre) (hstop : e.stop = e.start + byteLength removed)
include hstart hstop

/-- Edits behind the first one fit into what follows its piece. -/
theorem fitsIn_rest (hfits : ∀ other ∈ es, other.FitsIn offset (pre ++ (removed ++ post)))
    (hlater : ∀ other ∈ es, e.stop ≤ other.start) : ∀ other ∈ es, other.FitsIn e.stop post := by
  intro other hother
  have h := hfits other hother
  have hle := hlater other hother
  have hstop' : e.stop = offset + byteLength (pre ++ removed) := by
    rw [hstop, hstart, byteLength_append, Nat.add_assoc]
  rw [← List.append_assoc] at h
  rw [hstop'] at hle ⊢
  exact h.of_append hle

/-- The first edit replaces its piece. -/
theorem splice_cons : splice offset (pre ++ (removed ++ post)) (e :: es) =
    pre ++ (e.replacement.toList ++ splice e.stop post es) := by
  have htake : Text.takeBytes (e.start - offset) (pre ++ (removed ++ post)) = pre := by
    rw [hstart, Nat.add_sub_cancel_left, Text.takeBytes_append]
  have hdrop : Text.dropBytes (e.stop - offset) (pre ++ (removed ++ post)) = post := by
    rw [hstop, hstart, Nat.add_assoc, Nat.add_sub_cancel_left, ← byteLength_append,
      ← List.append_assoc, Text.dropBytes_append]
  rw [splice, htake, hdrop, List.append_assoc]

end Cons

/-- What is put together from a text and sorted edits is a splice of the text. -/
theorem exists_isSplice_splice {offset : Nat} {cs : List Char} {es : List Edit}
    (hfits : ∀ e ∈ es, e.FitsIn offset cs)
    (hsorted : es.Pairwise fun e other => e.stop ≤ other.start) :
    ∃ head cuts, cuts.map Cut.edit = es ∧ IsSplice offset cs (splice offset cs es) head cuts := by
  induction es generalizing offset cs with
  | nil => exact ⟨cs, [], rfl, by simp, by simp [splice], by simp⟩
  | cons e es ih =>
    obtain ⟨⟨pre, removed, post, rfl, hstart, hstop⟩, hmore⟩ := List.forall_mem_cons.1 hfits
    obtain ⟨hlater, hsorted⟩ := List.pairwise_cons.1 hsorted
    obtain ⟨head, cuts, hedits, hsplice⟩ := ih (fitsIn_rest hstart hstop hmore hlater) hsorted
    refine ⟨pre, ⟨e, removed, head⟩ :: cuts, by simp [hedits], ?_⟩
    rw [splice_cons hstart hstop]
    exact hsplice.cons hstart hstop

/-! ## From back to front -/

theorem replaceBackward_cons (cs : List Char) (e : Edit) (es : List Edit) :
    replaceBackward cs (e :: es) = e.replaceIn (replaceBackward cs es) := by
  rw [replaceBackward, List.reverse_cons, List.foldl_append]
  rfl

/-- An edit exchanges its piece of a text. -/
theorem replaceIn_append {e : Edit} {pre removed : List Char} (hstart : e.start = byteLength pre)
    (hstop : e.stop = e.start + byteLength removed) (post : List Char) :
    e.replaceIn (pre ++ (removed ++ post)) = pre ++ (e.replacement.toList ++ post) := by
  have hbehind := Text.dropBytes_append (pre ++ removed) post
  rw [List.append_assoc, byteLength_append, ← hstart, ← hstop] at hbehind
  rw [replaceIn, hbehind, hstart, Text.takeBytes_append]

/-- Made from the last to the first, edits of the end of a text leave what stands in front of it,
and put together the end from front to back. -/
theorem replaceBackward_append {front cs : List Char} {es : List Edit}
    (hfits : ∀ e ∈ es, e.FitsIn (byteLength front) cs)
    (hsorted : es.Pairwise fun e other => e.stop ≤ other.start) :
    replaceBackward (front ++ cs) es = front ++ splice (byteLength front) cs es := by
  induction es generalizing front cs with
  | nil => rfl
  | cons e es ih =>
    obtain ⟨⟨pre, removed, post, rfl, hstart, hstop⟩, hmore⟩ := List.forall_mem_cons.1 hfits
    obtain ⟨hlater, hsorted⟩ := List.pairwise_cons.1 hsorted
    have hplace : e.start = byteLength (front ++ pre) := by
      rw [hstart, byteLength_append]
    have hend : e.stop = byteLength (front ++ pre ++ removed) := by
      rw [hstop, hplace, ← byteLength_append]
    -- the later edits stand behind the piece of this one, which they leave in its place
    have hbehind := @ih (front ++ pre ++ removed) post
      (by rw [← hend]; exact fitsIn_rest hstart hstop hmore hlater) hsorted
    rw [← hend] at hbehind
    calc replaceBackward (front ++ (pre ++ (removed ++ post))) (e :: es)
        = e.replaceIn (front ++ pre ++ removed ++ splice e.stop post es) := by
          rw [replaceBackward_cons, ← hbehind]
          simp only [List.append_assoc]
      _ = front ++ pre ++ (e.replacement.toList ++ splice e.stop post es) := by
          rw [List.append_assoc, replaceIn_append hplace hstop]
      _ = front ++ splice (byteLength front) (pre ++ (removed ++ post)) (e :: es) := by
          rw [splice_cons hstart hstop, List.append_assoc]

theorem replaceBackward_eq_splice {cs : List Char} {es : List Edit}
    (hfits : ∀ e ∈ es, e.FitsIn 0 cs) (hsorted : es.Pairwise fun e other => e.stop ≤ other.start) :
    replaceBackward cs es = splice 0 cs es :=
  @replaceBackward_append [] cs es hfits hsorted

/-- An edit still fits into the text that the later ones leave. -/
theorem FitsIn.of_replaceBackward {cs : List Char} {e : Edit} {es : List Edit}
    (hfits : ∀ other ∈ e :: es, other.FitsIn 0 cs)
    (hsorted : (e :: es).Pairwise fun e other => e.stop ≤ other.start) :
    e.FitsIn 0 (replaceBackward cs es) := by
  obtain ⟨⟨pre, removed, post, rfl, hstart, hstop⟩, hmore⟩ := List.forall_mem_cons.1 hfits
  obtain ⟨hlater, hsorted⟩ := List.pairwise_cons.1 hsorted
  have hend : e.stop = byteLength (pre ++ removed) := by
    rw [hstop, hstart, Nat.zero_add, byteLength_append]
  have hbehind := @replaceBackward_append (pre ++ removed) post es
    (by rw [← hend]; exact fitsIn_rest hstart hstop hmore hlater) hsorted
  rw [List.append_assoc, List.append_assoc] at hbehind
  exact ⟨pre, removed, _, hbehind, hstart, hstop⟩

/-- Edits that fit into a source and do not touch each other are applied in their order. -/
theorem apply_eq_ok {source : String} {edits : List Edit}
    (hfits : ∀ e ∈ edits, e.FitsIn 0 source.toList)
    (hapart : edits.Pairwise fun e other => e.overlaps other = false) :
    apply source edits =
      .ok (String.ofList (splice 0 source.toList (edits.mergeSort comesBefore))) := by
  have hfault : (edits.mergeSort comesBefore).findSome? (fault? source.toList) = none :=
    List.findSome?_eq_none_iff.2 fun e he => fault?_eq_none (hfits e (List.mem_mergeSort.1 he))
  have hconflict := conflict?_eq_none (pairwise_overlaps_mergeSort hapart)
  have htext := replaceBackward_eq_splice (fun e he => hfits e (List.mem_mergeSort.1 he))
    (pairwise_stop_le_start hfits hapart)
  simp only [apply, hfault, hconflict, htext]

/-- Edits that fit into a source and do not touch each other are applied, and nothing else changes:
the outcome is a splice of the source whose cuts are those of the edits. -/
theorem exists_isSplice_of_apply {source : String} {edits : List Edit}
    (hfits : ∀ e ∈ edits, e.FitsIn 0 source.toList)
    (hapart : edits.Pairwise fun e other => e.overlaps other = false) :
    ∃ fixed head cuts, apply source edits = .ok fixed ∧ (cuts.map Cut.edit).Perm edits ∧
      IsSplice 0 source.toList fixed.toList head cuts := by
  have hfits' : ∀ e ∈ edits.mergeSort comesBefore, e.FitsIn 0 source.toList :=
    fun e he => hfits e (List.mem_mergeSort.1 he)
  obtain ⟨head, cuts, hedits, hsplice⟩ :=
    exists_isSplice_splice hfits' (pairwise_stop_le_start hfits hapart)
  refine ⟨_, head, cuts, apply_eq_ok hfits hapart, ?_, by rwa [String.toList_ofList]⟩
  rw [hedits]
  exact List.mergeSort_perm edits comesBefore

end Edit

end ZeroAlloc

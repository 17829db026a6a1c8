import Mathlib.Data.List.Forall2
import ZeroAlloc.Proofs.Document.WellFormed
import ZeroAlloc.Proofs.Replacement
set_option autoImplicit false

/-! # Edits among the tokens

An edit removes a range of tokens or inserts text in front of one. Whether two edits overlap depends
on the indices of the tokens alone (`overlaps_of_standsAt`). So documents in which corresponding
edits stand at the same tokens keep the same edits (`keepDisjoint_forall₂`). -/

namespace ZeroAlloc

/-- If the overlaps of two rows of edits are the same, the edits that are kept correspond. -/
theorem keepDisjoint_forall₂ {R : Edit → Edit → Prop}
    (hoverlaps : ∀ {e e' f f'}, R e e' → R f f' → e.overlaps f = e'.overlaps f')
    {es es' : List Edit} (h : List.Forall₂ R es es') :
    List.Forall₂ R (keepDisjoint es) (keepDisjoint es') := by
  have hany {kept kept' : List Edit} {e e' : Edit} (hkept : List.Forall₂ R kept kept')
      (he : R e e') : kept.any (·.overlaps e) = kept'.any (·.overlaps e') := by
    induction hkept with
    | nil => rfl
    | cons hk _ ih => rw [List.any_cons, List.any_cons, hoverlaps hk he, ih]
  -- the edits that were kept before correspond, so the next one meets the same fate
  have hrun {kept kept' : List Edit} (hkept : List.Forall₂ R kept kept') :
      List.Forall₂ R
        (es.foldl (fun kept e => if kept.any (·.overlaps e) then kept else kept ++ [e]) kept)
        (es'.foldl (fun kept e => if kept.any (·.overlaps e) then kept else kept ++ [e])
          kept') := by
    induction h generalizing kept kept' with
    | nil => exact hkept
    | cons he _ ih =>
      rw [List.foldl_cons, List.foldl_cons, hany hkept he]
      split
      · exact ih hkept
      · exact ih (List.rel_append hkept (.cons he .nil))
  exact hrun .nil

/-- Where an edit stands among the tokens of a document. -/
inductive EditPlace where
  /-- It takes the place of the tokens from one index through another. -/
  | spanning (first last : Nat)
  /-- It is an insertion in front of the token with an index. -/
  | before (index : Nat)

namespace EditPlace

/-- The first token that the edit touches. -/
def first : EditPlace → Nat
  | spanning first _ => first
  | before index => index

/-- The last token that the edit touches. -/
def last : EditPlace → Nat
  | spanning _ last => last
  | before index => index

/-- The offset at which the edit starts. -/
def start (doc : Document) (place : EditPlace) : Nat :=
  doc.tokenStart place.first

/-- The offset at which the edit ends. -/
def stop (doc : Document) : EditPlace → Nat
  | spanning _ last => doc.tokenStop last
  | before index => doc.tokenStart index

/-- Whether two edits touch the same token. -/
def overlaps (place other : EditPlace) : Bool :=
  place.first ≤ other.last && other.first ≤ place.last

end EditPlace

/-- The edit stands at the place. -/
structure Edit.StandsAt (e : Edit) (doc : Document) (place : EditPlace) : Prop where
  first_le_last : place.first ≤ place.last
  last_lt_size : place.last < doc.tokens.size
  start : e.start = place.start doc
  stop : e.stop = place.stop doc

/-- Where the edit for a site stands. -/
def Site.editPlace (s : Site) : EditPlace :=
  match s.origin with
  | .paramArray _ => .before s.last
  | _ => .spanning s.first s.last

/-- What stands in front of the call that an edit puts in. -/
def Origin.separator : Origin → String
  | paramArray true => ", "
  | _ => ""

namespace Document

/-- The edit for a finding stands at the place of its site and puts in the call. -/
theorem exists_edit?_standsAt (doc : Document) (factory : Factory) {finding : Finding}
    (hfirst : finding.site.first ≤ finding.site.last)
    (hlast : finding.site.last < doc.tokens.size) (hargument : finding.typeArgument ≠ "") :
    ∃ e, doc.edit? factory finding = some e ∧ e.StandsAt doc finding.site.editPlace ∧
      e.replacement = finding.site.origin.separator ++ doc.replacement factory finding ∧
      e.message = "Use " ++ doc.replacement factory finding ++ " instead" := by
  unfold edit?
  dsimp only
  rw [if_neg (by simpa [String.isEmpty_iff] using hargument)]
  cases horigin : finding.site.origin with
  | paramArray needsSeparator =>
    refine ⟨_, rfl, ?_, by cases needsSeparator <;> rfl, rfl⟩
    rw [Site.editPlace, horigin]
    exact ⟨Nat.le_refl _, hlast, rfl, rfl⟩
  | _ =>
    refine ⟨_, rfl, ?_, by simp [Origin.separator], rfl⟩
    rw [Site.editPlace, horigin]
    exact ⟨hfirst, hlast, rfl, rfl⟩

section Read

variable {language : Language} {path source : String}

/-- A token starts before another one ends exactly if it is not a later one. -/
theorem tokenStart_lt_tokenStop_iff {i j : Nat}
    (hi : i < (read language path source).tokens.size)
    (hj : j < (read language path source).tokens.size) :
    (read language path source).tokenStart i < (read language path source).tokenStop j ↔
      i ≤ j := by
  have htiles := tiles_read language path source
  rw [← Array.length_toList] at hi hj
  have ht := List.getElem?_eq_getElem hi
  have hu := List.getElem?_eq_getElem hj
  rw [tokenStart_of_getElem? ht, tokenStop_of_getElem? hu]
  constructor
  · intro hlt
    by_contra hji
    have := List.pairwise_iff_getElem.1 htiles.pairwise_stop_le_start j i hj hi (by omega)
    omega
  · intro hij
    have hlong := htiles.start_lt_stop (List.getElem_mem hj)
    have hle := tokenStart_le hij hj
    rw [tokenStart_of_getElem? ht, tokenStart_of_getElem? hu] at hle
    omega

theorem tokenStart_lt_tokenStart_iff {i j : Nat}
    (hi : i < (read language path source).tokens.size)
    (hj : j < (read language path source).tokens.size) :
    (read language path source).tokenStart i < (read language path source).tokenStart j ↔
      i < j := by
  rw [← Array.length_toList] at hi hj
  constructor
  · intro hlt
    by_contra hji
    have := tokenStart_le (Nat.le_of_not_lt hji) hi
    omega
  · exact fun hij => tokenStart_lt hij hj

theorem tokenStart_eq_tokenStart_iff {i j : Nat}
    (hi : i < (read language path source).tokens.size)
    (hj : j < (read language path source).tokens.size) :
    (read language path source).tokenStart i = (read language path source).tokenStart j ↔
      i = j := by
  rw [← Array.length_toList] at hi hj
  exact ⟨tokenStart_inj hi hj, fun h => by rw [h]⟩

/-- Edits of a document overlap exactly if they touch a token in common. -/
theorem overlaps_of_standsAt {e other : Edit} {place place' : EditPlace}
    (h : e.StandsAt (read language path source) place)
    (h' : other.StandsAt (read language path source) place') :
    e.overlaps other = place.overlaps place' := by
  obtain ⟨hle, hlast, hstart, hstop⟩ := h
  obtain ⟨hle', hlast', hstart', hstop'⟩ := h'
  rw [Bool.eq_iff_iff]
  simp only [Edit.overlaps, EditPlace.overlaps, Bool.or_eq_true, Bool.and_eq_true, beq_iff_eq,
    decide_eq_true_eq, hstart, hstop, hstart', hstop', EditPlace.start]
  have hfirst := Nat.lt_of_le_of_lt hle hlast
  have hfirst' := Nat.lt_of_le_of_lt hle' hlast'
  rw [tokenStart_eq_tokenStart_iff hfirst hfirst']
  cases place with
  | spanning first last =>
    cases place' with
    | spanning first' last' =>
      simp only [EditPlace.stop, EditPlace.first, EditPlace.last] at *
      rw [tokenStart_lt_tokenStop_iff hfirst hlast', tokenStart_lt_tokenStop_iff hfirst' hlast]
      omega
    | before index =>
      simp only [EditPlace.stop, EditPlace.first, EditPlace.last] at *
      rw [tokenStart_lt_tokenStart_iff hfirst hfirst', tokenStart_lt_tokenStop_iff hfirst' hlast]
      omega
  | before index =>
    cases place' with
    | spanning first' last' =>
      simp only [EditPlace.stop, EditPlace.first, EditPlace.last] at *
      rw [tokenStart_lt_tokenStop_iff hfirst hlast', tokenStart_lt_tokenStart_iff hfirst' hfirst]
      omega
    | before index' =>
      simp only [EditPlace.stop, EditPlace.first, EditPlace.last] at *
      rw [tokenStart_lt_tokenStart_iff hfirst hfirst', tokenStart_lt_tokenStart_iff hfirst' hfirst]
      omega

end Read

/-- The two edits stand at the same tokens, each in its document. -/
def SamePlace (doc other : Document) (e e' : Edit) : Prop :=
  ∃ place, e.StandsAt doc place ∧ e'.StandsAt other place

section Correspondence

variable {language language' : Language} {path path' source source' : String}

theorem overlaps_of_samePlace {e e' f f' : Edit}
    (he : SamePlace (read language path source) (read language' path' source') e e')
    (hf : SamePlace (read language path source) (read language' path' source') f f') :
    e.overlaps f = e'.overlaps f' := by
  obtain ⟨place, hplace, hplace'⟩ := he
  obtain ⟨place', hother, hother'⟩ := hf
  rw [overlaps_of_standsAt hplace hother, overlaps_of_standsAt hplace' hother']

/-- Where the edits for corresponding findings stand at the same tokens, the edits of the documents
do. -/
theorem edits_forall₂ {R : Finding → Finding → Prop} {S : Edit → Edit → Prop} {factory : Factory}
    (hedit : ∀ {f f'}, R f f' → Option.Rel
      (fun e e' =>
        SamePlace (read language path source) (read language' path' source') e e' ∧ S e e')
      ((read language path source).edit? factory f)
      ((read language' path' source').edit? factory f'))
    {fs fs' : List Finding} (h : List.Forall₂ R fs fs') :
    List.Forall₂ (fun e e' =>
      SamePlace (read language path source) (read language' path' source') e e' ∧ S e e')
      ((read language path source).edits factory fs)
      ((read language' path' source').edits factory fs') := by
  refine keepDisjoint_forall₂ (fun he hf => overlaps_of_samePlace he.1 hf.1) ?_
  exact List.rel_filterMap (fun _ _ hR => hedit hR) h

end Correspondence

end Document

end ZeroAlloc

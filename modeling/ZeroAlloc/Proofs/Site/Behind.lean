import ZeroAlloc.Proofs.Site.Extent
set_option autoImplicit false

/-! # Rows behind a spacer

A line break or a byte-order mark in front of a file is one more lexeme before every place. No
recogniser looks for it, so most of them see what they see without it. The lexemes before a place
are given nearest first, so the spacer stands at their far end. -/

namespace ZeroAlloc

/-- A lexeme that can come in front of a file and is part of nothing in it. -/
inductive Lexeme.IsSpacer : Lexeme → Prop where
  | lineBreak : IsSpacer ⟨.newline, "\n"⟩
  | byteOrderMark : IsSpacer ⟨.error, "\ufeff"⟩

namespace Lexeme.IsSpacer

variable {x : Lexeme}

theorem isIdent (h : x.IsSpacer) : x.isIdent = false := by
  cases h <;> rfl

theorem isPunct (h : x.IsSpacer) (p : String) : x.isPunct p = false := by
  cases h <;> rfl

theorem isWord (h : x.IsSpacer) (w : String) : x.isWord w = false := by
  cases h <;> rfl

end Lexeme.IsSpacer

/-! ## Looking back -/

/-- Nothing is found about the nearest lexeme if the spacer does not have it. -/
theorem any_head?_concat {p : Lexeme → Bool} {x : Lexeme} (h : p x = false)
    (before : List Lexeme) : (before ++ [x]).head?.any p = before.head?.any p := by
  cases before with
  | nil => exact h
  | cons l before => rfl

theorem startsWithPunct_concat {x : Lexeme} (h : x.IsSpacer) (p : String) (before : List Lexeme) :
    startsWithPunct p (before ++ [x]) = startsWithPunct p before :=
  any_head?_concat (h.isPunct p) before

namespace BracketPair

variable {x : Lexeme} (h : x.IsSpacer) (b : BracketPair)
include h

/-- The search for a bracket leaves a spacer behind the row where it is. -/
theorem untilClose_concat (depth : Nat) (ls : List Lexeme) :
    b.untilClose depth (ls ++ [x]) =
      (b.untilClose depth ls).map fun (inside, rest) => (inside, rest ++ [x]) := by
  induction ls generalizing depth with
  | nil => simp [untilClose, h.isPunct]
  | cons l ls ih =>
    have hstep (depth : Nat) :
        (b.untilClose depth (ls ++ [x])).map (fun (inside, rest) => (l :: inside, rest)) =
          ((b.untilClose depth ls).map fun (inside, rest) => (l :: inside, rest)).map
            fun (inside, rest) => (inside, rest ++ [x]) := by
      rw [ih, Option.map_map, Option.map_map]
      rfl
    simp only [List.cons_append, untilClose]
    split
    · exact hstep _
    · split
      · cases depth with
        | zero => rfl
        | succ depth => exact hstep depth
      · exact hstep _

theorem enclosing?_concat (before : List Lexeme) :
    b.enclosing? (before ++ [x]) =
      (b.enclosing? before).map fun (between, outside) => (between, outside ++ [x]) := by
  rw [enclosing?, enclosing?, untilClose_concat h, Option.map_map, Option.map_map]
  rfl

end BracketPair

/-! ## Places -/

/-- What is recognised at the places of a row behind a spacer is the image of what is recognised
without it, if this is so at each place of some kind, of which all later ones are. -/
theorem atEachPlace_concat {α β : Type} {f : List Lexeme → List Lexeme → List α}
    {g : List Lexeme → List Lexeme → List β} {k : α → β} {x : Lexeme} {P : List Lexeme → Prop}
    (hlater : ∀ l before, P before → P (l :: before))
    (h : ∀ before here, P before → g (before ++ [x]) here = (f before here).map k)
    {before : List Lexeme} (hbefore : P before) (ls : List Lexeme) :
    atEachPlace g (before ++ [x]) ls = (atEachPlace f before ls).map k := by
  induction ls generalizing before with
  | nil => rfl
  | cons l ls ih =>
    rw [atEachPlace, atEachPlace, List.map_append, h _ _ hbefore, ← List.cons_append,
      ih (hlater l before hbefore)]

/-- What does not depend on a spacer is recognised behind it as without it, if nothing is at the
spacer itself. -/
theorem atEachPlace_cons {α : Type} {f : List Lexeme → List Lexeme → List α} {x : Lexeme}
    {ls : List Lexeme} (hspacer : f [] (x :: ls) = [])
    (h : ∀ before here, f (before ++ [x]) here = f before here) :
    atEachPlace f [] (x :: ls) = atEachPlace f [] ls := by
  have hplaces : atEachPlace f ([] ++ [x]) ls = (atEachPlace f [] ls).map id :=
    atEachPlace_concat (P := fun _ => True) (fun _ _ _ => trivial)
      (fun before here _ => by rw [h, List.map_id]) trivial ls
  rw [List.nil_append, List.map_id] at hplaces
  rw [atEachPlace, hspacer, List.nil_append, hplaces]

/-- The import with its places moved up. -/
def Import.shift (n : Nat) (i : Import) : Import :=
  { i with first := i.first + n, last := i.last + n }

/-- The stretches, which are pairs of indices, stand one directly behind the other, and the first
one starts at an index. -/
inductive AdjoinFrom : Nat → List (Nat × Nat) → Prop where
  | nil (index : Nat) : AdjoinFrom index []
  | cons {index last : Nat} {stretches : List (Nat × Nat)}
      (more : AdjoinFrom (last + 1) stretches) : AdjoinFrom index ((index, last) :: stretches)

/-! ## Sites -/

namespace Site

theorem shift_zero (s : Site) : s.shift 0 = s := by
  simp [shift]

theorem shift_shift (m n : Nat) (s : Site) : (s.shift m).shift n = s.shift (m + n) := by
  simp [shift, Nat.add_assoc, Function.comp_def]

theorem comesBefore_shift (n : Nat) (s other : Site) :
    (s.shift n).comesBefore (other.shift n) = s.comesBefore other := by
  rw [Bool.eq_iff_iff]
  simp [comesBefore]

theorem comesBefore_markAttribute (sections sections' : List (Nat × Nat)) (s other : Site) :
    (s.markAttribute sections).comesBefore (other.markAttribute sections') =
      s.comesBefore other := by
  unfold markAttribute
  split <;> split <;> rfl

/-- Sections that move with the site mark it alike. -/
theorem markAttribute_shift (sections : List (Nat × Nat)) (n : Nat) (s : Site) :
    (s.shift n).markAttribute (sections.map fun (first, last) => (first + n, last + n)) =
      (s.markAttribute sections).shift n := by
  rw [markAttribute_eq, markAttribute_eq, liesWithin_shift]
  split <;> rfl

end Site

/-- The sites that are recognised at the places of a row, marked and sorted. -/
theorem mergeSort_map_markAttribute (sections : List (Nat × Nat)) (found : List Site) :
    (found.map (Site.markAttribute sections)).mergeSort Site.comesBefore =
      (found.mergeSort Site.comesBefore).map (Site.markAttribute sections) :=
  (List.map_mergeSort fun s _ other _ =>
    (Site.comesBefore_markAttribute sections sections s other).symm).symm

/-- The sites behind a spacer are those without it, moved up by one lexeme; the marks depend on the
attribute sections in either case. -/
theorem exists_sites_behind {f : List Lexeme → List Lexeme → List Site} {x : Lexeme}
    {ls : List Lexeme} (hspacer : f [] (x :: ls) = [])
    (h : ∀ before here, f (before ++ [x]) here = f before here)
    (sections sections' : List (Nat × Nat)) :
    ∃ found : List Site,
      ((atEachPlace (fun before here =>
        (f before here).map fun s => s.shift before.length) [] ls).map
          (Site.markAttribute sections)).mergeSort Site.comesBefore =
        found.map (Site.markAttribute sections) ∧
      ((atEachPlace (fun before here =>
        (f before here).map fun s => s.shift before.length) [] (x :: ls)).map
          (Site.markAttribute sections')).mergeSort Site.comesBefore =
        found.map fun s => (s.shift 1).markAttribute sections' := by
  have hplaces : atEachPlace (fun before here =>
        (f before here).map fun s => s.shift before.length) ([] ++ [x]) ls =
      (atEachPlace (fun before here =>
        (f before here).map fun s => s.shift before.length) [] ls).map (Site.shift 1) := by
    refine atEachPlace_concat (P := fun _ => True) (fun _ _ _ => trivial)
      (fun before here _ => ?_) trivial ls
    rw [h, List.map_map]
    refine List.map_congr_left fun s _ => ?_
    rw [Function.comp_apply, Site.shift_shift, List.length_append, List.length_singleton]
  refine ⟨_, mergeSort_map_markAttribute sections _, ?_⟩
  rw [List.nil_append] at hplaces
  rw [atEachPlace, hspacer, List.map_nil, List.nil_append, hplaces,
    mergeSort_map_markAttribute, ← List.map_mergeSort fun s _ other _ =>
      (Site.comesBefore_shift 1 s other).symm, List.map_map]
  rfl

end ZeroAlloc

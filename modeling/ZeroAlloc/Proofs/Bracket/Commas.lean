import ZeroAlloc.Proofs.CSharp.Calls
import ZeroAlloc.Proofs.Directive
import ZeroAlloc.Proofs.Indexed.Levels
import ZeroAlloc.Proofs.Site.Written
set_option autoImplicit false

/-! # Lists that are cut at commas

A bracketed list is cut into ranges of indices that follow each other, one comma apart. The commas
are those at which no group is open, where closing brackets without an opening one count for nothing
(`exists_splitFrom_separators`); in a row that nests, they are those that no brackets hold
(`depthBehind_eq_zero_iff`). Nothing of the list is lost: the pieces with commas between them are
the list again (`intercalate_splitCommas`), and so are the sizes of a level, but for the line breaks
(`intercalate_sizes`). -/

namespace ZeroAlloc

open CSharp (brackets)

/-! ## Depth -/

/-- The number of groups that are open behind a row, given those that are open before it. A closing
bracket without an opening one counts for nothing. -/
def depthBehind (depth : Nat) (ls : List Lexeme) : Nat :=
  ls.foldl (fun depth l =>
    if l.opensGroup then depth + 1 else if l.closesGroup then depth - 1 else depth) depth

theorem depthBehind_cons (depth : Nat) (l : Lexeme) (ls : List Lexeme) :
    depthBehind depth (l :: ls) =
      depthBehind (if l.opensGroup then depth + 1 else if l.closesGroup then depth - 1 else depth)
        ls := rfl

/-- In a row that leaves no closing bracket without an opening one, the depth is the number of
brackets that are due, and counts the opening brackets that have no closing one. -/
theorem depthBehind_eq_of_due? {due next : List String} {ls : List Lexeme}
    (h : brackets.due? due ls = some next) :
    depthBehind due.length ls = next.length ∧
      due.length + ls.countP Lexeme.opensGroup = ls.countP Lexeme.closesGroup + next.length := by
  induction ls generalizing due with
  | nil =>
    cases h
    exact ⟨rfl, by simp⟩
  | cons l ls ih =>
    rw [Brackets.due?_cons] at h
    obtain ⟨following, hstep, hrest⟩ := Option.bind_eq_some_iff.1 h
    obtain ⟨hdepth, hcount⟩ := ih hrest
    have hlength := Brackets.length_of_step hstep
    rw [CSharp.opens_brackets, CSharp.closes_brackets] at hlength
    refine ⟨by rw [depthBehind_cons, ← hlength, hdepth], ?_⟩
    rcases Brackets.step_cases hstep with ⟨b, hb, hopen, rfl⟩ | ⟨b, hb, hclose, rfl⟩ |
      ⟨hopens, hcloses, rfl⟩
    · have hopens : brackets.opens l = true := List.any_eq_true.2 ⟨b, hb, hopen⟩
      have hcloses : brackets.closes l = false := by
        rw [Bool.eq_false_iff]
        intro hcloses
        rw [Brackets.opens_eq_false_of_closes hcloses] at hopens
        cases hopens
      rw [CSharp.opens_brackets] at hopens
      rw [CSharp.closes_brackets] at hcloses
      simp only [List.countP_cons, hopens, hcloses, if_true, Bool.false_eq_true, if_false,
        List.length_cons] at hcount ⊢
      omega
    · have hcloses : brackets.closes l = true := List.any_eq_true.2 ⟨b, hb, hclose⟩
      have hopens := Brackets.opens_eq_false_of_closes hcloses
      rw [CSharp.opens_brackets] at hopens
      rw [CSharp.closes_brackets] at hcloses
      simp only [List.countP_cons, hopens, hcloses, if_true, Bool.false_eq_true, if_false,
        List.length_cons] at hcount ⊢
      omega
    · rw [CSharp.opens_brackets] at hopens
      rw [CSharp.closes_brackets] at hcloses
      simp only [List.countP_cons, hopens, hcloses, Bool.false_eq_true, if_false] at hcount ⊢
      omega

/-- At a place of a nested row, no group is open exactly if as many have been closed as opened. -/
theorem depthBehind_eq_zero_iff {ls : List Lexeme} (h : brackets.Nests ls) (k : Nat) :
    depthBehind 0 (ls.take k) = 0 ↔
      (ls.take k).countP Lexeme.opensGroup = (ls.take k).countP Lexeme.closesGroup := by
  obtain ⟨next, hnext, -⟩ : ∃ next, brackets.due? [] (ls.take k) = some next ∧
      brackets.due? next (ls.drop k) = some [] := by
    rw [← Option.bind_eq_some_iff, ← Brackets.due?_append, List.take_append_drop]
    exact h
  obtain ⟨hdepth, hcount⟩ := depthBehind_eq_of_due? hnext
  rw [List.length_nil] at hdepth hcount
  omega

/-! ## Ranges -/

/-- The ranges follow each other from one index to another, one index apart. -/
inductive Consecutive : Nat → Nat → List (Nat × Nat) → Prop where
  | last {start stop : Nat} (h : start ≤ stop) : Consecutive start stop [(start, stop)]
  | cons {start cut stop : Nat} {ranges : List (Nat × Nat)} (h : start ≤ cut)
      (more : Consecutive (cut + 1) stop ranges) : Consecutive start stop ((start, cut) :: ranges)

theorem Consecutive.ne_nil {start stop : Nat} {ranges : List (Nat × Nat)}
    (h : Consecutive start stop ranges) : ranges ≠ [] := by
  cases h <;> exact List.cons_ne_nil _ _

/-- The indices between two ranges: each range but the last one ends at one. -/
def separators (ranges : List (Nat × Nat)) : List Nat :=
  ranges.dropLast.map Prod.snd

theorem length_separators {ranges : List (Nat × Nat)} (h : ranges ≠ []) :
    (separators ranges).length + 1 = ranges.length := by
  have hpos := List.length_pos_iff.2 h
  rw [separators, List.length_map, List.length_dropLast]
  omega

/-- An index is that of a comma of a row, which starts at the index `i`, at which no group is
open. -/
def IsOuterComma (depth i : Nat) (row : List Lexeme) (j : Nat) : Prop :=
  ∃ k, j = i + k ∧ startsWithPunct "," (row.drop k) = true ∧ depthBehind depth (row.take k) = 0

theorem isOuterComma_cons {depth i j : Nat} {l : Lexeme} {row : List Lexeme} :
    IsOuterComma depth i (l :: row) j ↔ j = i ∧ l.isPunct "," = true ∧ depth = 0 ∨
      IsOuterComma (depthBehind depth [l]) (i + 1) row j := by
  constructor
  · rintro ⟨k, rfl, hcomma, hdepth⟩
    cases k with
    | zero => exact .inl ⟨rfl, hcomma, hdepth⟩
    | succ k => exact .inr ⟨k, by omega, hcomma, hdepth⟩
  · rintro (⟨rfl, hcomma, hdepth⟩ | ⟨k, rfl, hcomma, hdepth⟩)
    · exact ⟨0, rfl, hcomma, hdepth⟩
    · exact ⟨k + 1, by omega, hcomma, hdepth⟩

/-- A comma is no bracket, so brackets and all other lexemes only change the depth. -/
theorem splitFrom_cons (close depth i start : Nat) (l : Lexeme) (row : List Lexeme) :
    Indexed.splitFrom close depth i start (l :: row) =
      if l.isPunct "," = true ∧ depth = 0 then do
        let piece ← Indexed.range start i
        let more ← Indexed.splitFrom close 0 (i + 1) (i + 1) row
        pure (piece :: more)
      else Indexed.splitFrom close (depthBehind depth [l]) (i + 1) start row := by
  have hcomma {p : Prop} (hl : l.opensGroup = true ∨ l.closesGroup = true) :
      ¬(l.isPunct "," = true ∧ p) := by
    rintro ⟨h, -⟩
    obtain ⟨hopens, hcloses⟩ := CSharp.plain_of_comma h
    rw [hopens, hcloses] at hl
    simp at hl
  rw [Indexed.splitFrom, depthBehind_cons]
  by_cases hopens : l.opensGroup = true
  · rw [if_pos hopens, if_neg (hcomma (.inl hopens)), if_pos hopens]
    rfl
  · rw [if_neg hopens, if_neg hopens]
    by_cases hcloses : l.closesGroup = true
    · rw [if_pos hcloses, if_neg (hcomma (.inr hcloses)), if_pos hcloses]
      rfl
    · simp only [hcloses, Bool.and_eq_true, beq_iff_eq]
      rfl

/-- The row is cut at the commas at which no group is open. -/
theorem exists_splitFrom_separators {close depth i start : Nat} {row : List Lexeme}
    (hstart : start ≤ i) (hclose : i + row.length = close) :
    ∃ ranges, Indexed.splitFrom close depth i start row = .done ranges ∧
      Consecutive start close ranges ∧
        ∀ j, j ∈ separators ranges ↔ IsOuterComma depth i row j := by
  induction row generalizing depth i start with
  | nil =>
    obtain rfl : i = close := hclose
    refine ⟨[(start, i)], ?_, .last hstart, fun j => ?_⟩
    · rw [Indexed.splitFrom, Indexed.range_eq_done hstart]
      rfl
    · simp [separators, IsOuterComma, startsWithPunct]
  | cons l row ih =>
    have hmore : i + 1 + row.length = close := by
      rw [← hclose, List.length_cons]
      omega
    rw [splitFrom_cons]
    split
    · rename_i hcut
      obtain ⟨hcomma, rfl⟩ := hcut
      obtain ⟨hopens, hcloses⟩ := CSharp.plain_of_comma hcomma
      have hdepth : depthBehind 0 [l] = 0 := by simp [depthBehind, hopens, hcloses]
      obtain ⟨ranges, hdone, hconsecutive, hcommas⟩ := @ih 0 _ _ (Nat.le_refl (i + 1)) hmore
      refine ⟨(start, i) :: ranges, ?_, .cons hstart hconsecutive, fun j => ?_⟩
      · rw [Indexed.range_eq_done hstart, Indexed.Attempt.done_bind, hdone]
        rfl
      · rw [isOuterComma_cons, hdepth, ← hcommas, separators,
          List.dropLast_cons_of_ne_nil hconsecutive.ne_nil, List.map_cons, List.mem_cons]
        simp [hcomma, separators]
    · rename_i hplain
      -- a lexeme that does not separate leaves the ranges to the rest of the row
      obtain ⟨ranges, hdone, hconsecutive, hcommas⟩ :=
        @ih (depthBehind depth [l]) _ _ (Nat.le_succ_of_le hstart) hmore
      refine ⟨ranges, hdone, hconsecutive, fun j => ?_⟩
      rw [hcommas, isOuterComma_cons, or_iff_right fun h => hplain h.2]

/-! ## Pieces -/

theorem intercalate_consFirst (separator : List Lexeme) (l : Lexeme) {pieces : List (List Lexeme)}
    (h : pieces ≠ []) :
    separator.intercalate (consFirst l pieces) = l :: separator.intercalate pieces := by
  obtain ⟨piece, pieces, rfl⟩ := List.exists_cons_of_ne_nil h
  cases pieces with
  | nil => simp [consFirst]
  | cons next pieces => simp [consFirst, List.intercalate_cons_cons]

/-- The pieces of a row with commas between them are the row. -/
theorem intercalate_splitCommas (depth : Nat) (ls : List Lexeme) :
    [Lexeme.punct ","].intercalate (splitCommas depth ls) = ls := by
  have hjoin (depth : Nat) (l : Lexeme) (ls : List Lexeme) :=
    intercalate_consFirst [Lexeme.punct ","] l (splitCommas_ne_nil depth ls)
  induction ls generalizing depth with
  | nil => simp [splitCommas]
  | cons l ls ih =>
    rw [splitCommas]
    split
    · rw [hjoin, ih]
    · split
      · rw [hjoin, ih]
      · split
        · rename_i hcut
          obtain ⟨piece, pieces, hpieces⟩ :=
            List.exists_cons_of_ne_nil (splitCommas_ne_nil 0 ls)
          rw [hpieces, List.intercalate_cons_cons, ← hpieces, ih,
            Lexeme.eq_punct (Bool.and_eq_true_iff.1 hcut).1]
          rfl
        · rw [hjoin, ih]

theorem withoutNewlines_intercalate (pieces : List (List Lexeme)) :
    withoutNewlines ([Lexeme.punct ","].intercalate pieces) =
      [Lexeme.punct ","].intercalate (pieces.map withoutNewlines) := by
  induction pieces with
  | nil => rfl
  | cons piece pieces ih =>
    cases pieces with
    | nil => simp
    | cons next pieces =>
      rw [List.intercalate_cons_cons, List.map_cons, List.map_cons, List.intercalate_cons_cons,
        ← List.map_cons, ← ih]
      simp only [withoutNewlines, List.filter_append]
      rfl

/-- The sizes of a level with commas between them are its contents without line breaks. -/
theorem intercalate_sizes (inside : List Lexeme) :
    [Lexeme.punct ","].intercalate
        ((ArrayLevel.ofContents inside).sizes.map fun size => size.getD []) =
      withoutNewlines inside := by
  have hsizes : (ArrayLevel.ofContents inside).sizes.map (fun size => size.getD []) =
      (splitCommas 0 inside).map withoutNewlines := by
    rw [ArrayLevel.ofContents, List.map_map]
    refine List.map_congr_left fun piece _ => ?_
    rw [Function.comp_apply]
    cases withoutNewlines piece <;> rfl
  rw [hsizes, ← withoutNewlines_intercalate, intercalate_splitCommas]

/-! ## Bracketed lists -/

/-- The list between two brackets, cut into ranges. -/
structure IsCutAtCommas (ls : List Lexeme) (opening close : Nat) (ranges : List (Nat × Nat)) :
    Prop where
  /-- The ranges cover all indices between the brackets but the separators. -/
  consecutive : Consecutive (opening + 1) close ranges
  /-- The ranges are those of the pieces. -/
  pieces : ranges.map (fun r => Indexed.between ls r.1 r.2) =
    splitCommas 0 (Indexed.between ls (opening + 1) close)
  /-- The separators are commas. -/
  commas : ∀ i ∈ separators ranges, startsWithPunct "," (ls.drop i) = true
  /-- The pieces with commas between them are all that stands between the brackets. -/
  joined : [Lexeme.punct ","].intercalate (ranges.map fun r => Indexed.between ls r.1 r.2) =
    Indexed.between ls (opening + 1) close
  /-- In a nested list, the separators are the commas that stand in no further group. -/
  outermost : brackets.Nests (Indexed.between ls (opening + 1) close) →
    ∀ i, i ∈ separators ranges ↔ opening < i ∧ i < close ∧ startsWithPunct "," (ls.drop i) = true ∧
      (Indexed.between ls (opening + 1) i).countP Lexeme.opensGroup =
        (Indexed.between ls (opening + 1) i).countP Lexeme.closesGroup
  /-- The list is read as the level of its contents. -/
  level : Indexed.levelBetween ls opening close =
    .done (ArrayLevel.ofContents (Indexed.between ls (opening + 1) close))
  /-- The level has one more dimension than there are separators. -/
  rank : (ArrayLevel.ofContents (Indexed.between ls (opening + 1) close)).rank =
    (separators ranges).length + 1
  /-- The sizes with commas between them are the list without line breaks. -/
  sizes : [Lexeme.punct ","].intercalate ((ArrayLevel.ofContents
      (Indexed.between ls (opening + 1) close)).sizes.map fun size => size.getD []) =
    withoutNewlines (Indexed.between ls (opening + 1) close)

namespace Indexed

variable {ls : List Lexeme} {start stop k : Nat}

theorem take_between (h : start + k ≤ stop) :
    (between ls start stop).take k = between ls start (start + k) := by
  rw [between, between, List.take_take]
  congr 1
  omega

theorem startsWithPunct_drop_between {p : String} (h : start + k < stop) :
    startsWithPunct p ((between ls start stop).drop k) =
      startsWithPunct p (ls.drop (start + k)) := by
  rw [startsWithPunct, startsWithPunct, between, List.head?_drop, List.head?_drop,
    List.getElem?_take_of_lt (by omega), List.getElem?_drop]

end Indexed

/-- Every bracketed list is cut at its commas. -/
theorem exists_isCutAtCommas {b : BracketPair} {ls : List Lexeme} {opening close : Nat}
    (h : b.Closes ls opening close) :
    ∃ ranges, Indexed.splitRanges ls opening close = .done ranges ∧
      IsCutAtCommas ls opening close ranges := by
  obtain ⟨l, hl, -⟩ := h.exists_closing
  have hclose := (List.getElem?_eq_some_iff.1 hl).1
  have hlt := h.lt
  have hlength : (Indexed.between ls (opening + 1) close).length = close - (opening + 1) :=
    Indexed.length_between (Nat.le_of_lt hclose)
  obtain ⟨ranges, hdone, -, hpieces⟩ := Indexed.exists_splitRanges hlt (Nat.le_of_lt hclose)
  obtain ⟨found, hfound, hconsecutive, hcommas⟩ :=
    @exists_splitFrom_separators close 0 _ _ (Indexed.between ls (opening + 1) close)
      (Nat.le_refl (opening + 1)) (by omega)
  obtain rfl : found = ranges := by
    rw [Indexed.splitRanges, Indexed.piece_eq_done hlt, Indexed.Attempt.done_bind, hfound] at hdone
    exact Indexed.Attempt.done.inj hdone
  -- a place of the list is one of the row
  have hplace {k : Nat} (hk : startsWithPunct ","
      ((Indexed.between ls (opening + 1) close).drop k) = true) : opening + 1 + k < close := by
    have := Indexed.lt_length_of_startsWithPunct hk
    omega
  have hrank : (ArrayLevel.ofContents (Indexed.between ls (opening + 1) close)).rank =
      found.length := by
    rw [ArrayLevel.rank, ArrayLevel.ofContents, List.length_map, ← hpieces, List.length_map]
  have hlevel := Indexed.levelBetween_eq_done hlt (Nat.le_of_lt hclose)
  refine ⟨found, hdone, hconsecutive, hpieces, fun i hi => ?_, ?_, fun hnests i => ?_, hlevel, ?_,
    intercalate_sizes _⟩
  · obtain ⟨k, rfl, hcomma, -⟩ := (hcommas i).1 hi
    rwa [Indexed.startsWithPunct_drop_between (hplace hcomma)] at hcomma
  · rw [hpieces, intercalate_splitCommas]
  · rw [hcommas]
    constructor
    · rintro ⟨k, rfl, hcomma, hdepth⟩
      have hk := hplace hcomma
      rw [depthBehind_eq_zero_iff hnests, Indexed.take_between (Nat.le_of_lt hk)] at hdepth
      rw [Indexed.startsWithPunct_drop_between hk] at hcomma
      exact ⟨by omega, hk, hcomma, hdepth⟩
    · rintro ⟨hopening, hi, hcomma, hcount⟩
      obtain ⟨k, rfl⟩ := Nat.exists_eq_add_of_le hopening
      refine ⟨k, rfl, ?_, ?_⟩
      · rwa [Indexed.startsWithPunct_drop_between hi]
      · rwa [depthBehind_eq_zero_iff hnests, Indexed.take_between (Nat.le_of_lt hi)]
  · rw [hrank, length_separators hconsecutive.ne_nil]

/-- The row `x [ f ( a , b ) , \n , n ]`, whose list has three dimensions. -/
def dimensionRow : List Lexeme :=
  [⟨.ident, "x"⟩, ⟨.punct, "["⟩, ⟨.ident, "f"⟩, ⟨.punct, "("⟩, ⟨.ident, "a"⟩, ⟨.punct, ","⟩,
    ⟨.ident, "b"⟩, ⟨.punct, ")"⟩, ⟨.punct, ","⟩, ⟨.newline, "\n"⟩, ⟨.punct, ","⟩, ⟨.ident, "n"⟩,
    ⟨.punct, "]"⟩]

theorem exists_isCutAtCommas_dimensionRow :
    BracketPair.squares.Closes dimensionRow 1 12 ∧
      brackets.Nests (Indexed.between dimensionRow 2 12) ∧
        Indexed.splitRanges dimensionRow 1 12 = .done [(2, 8), (9, 10), (11, 12)] ∧
          IsCutAtCommas dimensionRow 1 12 [(2, 8), (9, 10), (11, 12)] := by
  have hcloses : BracketPair.squares.Closes dimensionRow 1 12 :=
    ⟨(dimensionRow.drop 2).take 10, [], rfl, rfl⟩
  obtain ⟨ranges, hdone, hcut⟩ := exists_isCutAtCommas hcloses
  have hranges : Indexed.splitRanges dimensionRow 1 12 = .done [(2, 8), (9, 10), (11, 12)] := rfl
  obtain rfl := Indexed.Attempt.done.inj (hdone.symm.trans hranges)
  exact ⟨hcloses, by decide, hranges, hcut⟩

end ZeroAlloc

import ZeroAlloc.Proofs.Indexed.Row
set_option autoImplicit false

/-! # Array levels by indices

A bracketed list of dimensions is cut into ranges of indices at its commas, and the ranges are
copied. All ranges lie between the brackets, so nothing fails (`levelBetween_eq_done`). -/

namespace ZeroAlloc.Indexed

open Attempt (ofOption)

variable {ls : List Lexeme}

/-! ## Pieces between commas -/

/-- The ranges between the commas that are `depth` brackets out, up to the index `close`. The first
range starts at `start`; the row goes on with the lexeme that has the index `i`. -/
def splitFrom (close depth i start : Nat) : List Lexeme → Attempt (List (Nat × Nat))
  | [] => do
    let piece ← range start close
    pure [piece]
  | l :: ls =>
    if l.opensGroup then splitFrom close (depth + 1) (i + 1) start ls
    else if l.closesGroup then splitFrom close (depth - 1) (i + 1) start ls
    else if l.isPunct "," && depth == 0 then do
      let piece ← range start i
      let more ← splitFrom close 0 (i + 1) (i + 1) ls
      pure (piece :: more)
    else splitFrom close depth (i + 1) start ls

/-- The ranges between the commas of a bracketed list. -/
def splitRanges (ls : List Lexeme) (opening close : Nat) : Attempt (List (Nat × Nat)) := do
  let inside ← piece ls (opening + 1) close
  splitFrom close 0 (opening + 1) (opening + 1) inside

/-- Put lexemes in front of the first piece. -/
def prefixFirst (front : List Lexeme) : List (List Lexeme) → List (List Lexeme)
  | [] => [front]
  | piece :: pieces => (front ++ piece) :: pieces

theorem prefixFirst_concat (front : List Lexeme) (l : Lexeme) (pieces : List (List Lexeme)) :
    prefixFirst (front ++ [l]) pieces = prefixFirst front (consFirst l pieces) := by
  cases pieces with
  | nil => rfl
  | cons piece pieces => simp [prefixFirst, consFirst]

theorem prefixFirst_nil {pieces : List (List Lexeme)} (h : pieces ≠ []) :
    prefixFirst [] pieces = pieces := by
  cases pieces with
  | nil => exact absurd rfl h
  | cons piece pieces => rfl

theorem exists_splitFrom {close depth i start : Nat} {row : List Lexeme} (hstart : start ≤ i)
    (hi : i ≤ close) (hclose : close ≤ ls.length) (hrow : between ls i close = row) :
    ∃ ranges, splitFrom close depth i start row = .done ranges ∧
      (∀ r ∈ ranges, r.1 ≤ r.2 ∧ r.2 ≤ close) ∧
        ranges.map (fun r => between ls r.1 r.2) =
          prefixFirst (between ls start i) (splitCommas depth row) := by
  induction row generalizing depth i start with
  | nil =>
    have hend := congrArg List.length hrow
    rw [length_between hclose, List.length_nil] at hend
    obtain rfl : i = close := by omega
    refine ⟨[(start, i)], ?_, by simpa using hstart, by simp [splitCommas, prefixFirst]⟩
    rw [splitFrom, range_eq_done hstart]
    rfl
  | cons l row ih =>
    obtain ⟨hlt, hl, hmore⟩ := between_eq_cons hrow
    have hone : between ls start (i + 1) = between ls start i ++ [l] := by
      rw [between_append hstart (Nat.le_succ i)]
      congr 1
      have hat : ls.drop i = l :: ls.drop (i + 1) := by
        obtain ⟨hin, rfl⟩ := List.getElem?_eq_some_iff.1 hl
        exact List.drop_eq_getElem_cons hin
      rw [between, hat, Nat.succ_sub (Nat.le_refl i), Nat.sub_self]
      rfl
    -- a lexeme that does not separate joins the piece that it stands in
    have hjoin (depth' : Nat) : ∃ ranges, splitFrom close depth' (i + 1) start row = .done ranges ∧
        (∀ r ∈ ranges, r.1 ≤ r.2 ∧ r.2 ≤ close) ∧
          ranges.map (fun r => between ls r.1 r.2) =
            prefixFirst (between ls start i) (consFirst l (splitCommas depth' row)) := by
      obtain ⟨ranges, hdone, hbounds, hpieces⟩ :=
        @ih depth' _ _ (Nat.le_succ_of_le hstart) hlt hmore
      refine ⟨ranges, hdone, hbounds, ?_⟩
      rw [hpieces, hone, prefixFirst_concat]
    rw [splitFrom, splitCommas]
    split
    · exact hjoin _
    · split
      · exact hjoin _
      · split
        · obtain ⟨ranges, hdone, hbounds, hpieces⟩ := @ih 0 _ _ (Nat.le_refl (i + 1)) hlt hmore
          refine ⟨(start, i) :: ranges, ?_, ?_, ?_⟩
          · rw [range_eq_done hstart, Attempt.done_bind, hdone]
            rfl
          · exact List.forall_mem_cons.2 ⟨⟨hstart, Nat.le_of_lt hlt⟩, hbounds⟩
          · rw [List.map_cons, hpieces, between_self, prefixFirst_nil (splitCommas_ne_nil 0 row)]
            simp [prefixFirst]
        · exact hjoin _

/-- The pieces of a bracketed list are those between its brackets. -/
theorem exists_splitRanges {opening close : Nat} (hopening : opening < close)
    (hclose : close ≤ ls.length) :
    ∃ ranges, splitRanges ls opening close = .done ranges ∧
      (∀ r ∈ ranges, r.1 ≤ r.2 ∧ r.2 ≤ close) ∧
        ranges.map (fun r => between ls r.1 r.2) =
          splitCommas 0 (between ls (opening + 1) close) := by
  obtain ⟨ranges, hdone, hbounds, hpieces⟩ :=
    @exists_splitFrom _ _ 0 _ _ _ (Nat.le_refl (opening + 1)) hopening hclose rfl
  rw [between_self, prefixFirst_nil (splitCommas_ne_nil 0 _)] at hpieces
  refine ⟨ranges, ?_, hbounds, hpieces⟩
  rw [splitRanges, piece_eq_done hopening, Attempt.done_bind, hdone]

/-- The number of arguments between the brackets of a call. -/
def countArguments (ls : List Lexeme) (opening close : Nat) : Attempt Nat := do
  let inside ← piece ls (opening + 1) close
  if inside.all Lexeme.isNewline then pure 0
  else do
    let pieces ← splitRanges ls opening close
    pure pieces.length

theorem countArguments_eq_done {opening close : Nat} (hopening : opening < close)
    (hclose : close ≤ ls.length) :
    countArguments ls opening close = .done (argumentCount (between ls (opening + 1) close)) := by
  obtain ⟨ranges, hdone, _, hpieces⟩ := exists_splitRanges hopening hclose
  rw [countArguments, argumentCount, ← hpieces, List.length_map, piece_eq_done hopening,
    Attempt.done_bind]
  split
  · rfl
  · rw [hdone]
    rfl

/-! ## Levels -/

/-- The level that a bracketed list of dimensions stands for. -/
def levelBetween (ls : List Lexeme) (opening close : Nat) : Attempt ArrayLevel := do
  let pieces ← splitRanges ls opening close
  let sizes ← pieces.mapM fun piece => do
    let size ← exprTokens ls piece.1 piece.2
    pure (if size.isEmpty then none else some size)
  pure ⟨sizes⟩

/-- The levels that start at an index, and the index behind them. A list for which `isLevel` fails
ends the levels. -/
def levelsFrom (b : BracketPair) (isLevel : List Lexeme → Bool) (ls : List Lexeme) :
    (fuel i : Nat) → Attempt (List ArrayLevel × Nat)
  | 0, _ => .fault .stuck
  | fuel + 1, i =>
    if startsWithPunct b.opening (ls.drop i) && isLevel (ls.drop i) then do
      let close ← matchingClose b ls i
      let level ← levelBetween ls i close
      let (levels, stop) ← levelsFrom b isLevel ls fuel (close + 1)
      pure (level :: levels, stop)
    else pure ([], i)

theorem levelBetween_eq_done {opening close : Nat} (hopening : opening < close)
    (hclose : close ≤ ls.length) :
    levelBetween ls opening close =
      .done (ArrayLevel.ofContents (between ls (opening + 1) close)) := by
  obtain ⟨ranges, hdone, hbounds, hpieces⟩ := exists_splitRanges hopening hclose
  have hsizes : ∀ r ∈ ranges,
      (do
        let size ← exprTokens ls r.1 r.2
        pure (if size.isEmpty then none else some size)) =
      Attempt.done (if (withoutNewlines (between ls r.1 r.2)).isEmpty then none
        else some (withoutNewlines (between ls r.1 r.2))) := by
    intro r hr
    rw [exprTokens_eq_done (hbounds r hr).1 (Nat.le_trans (hbounds r hr).2 hclose)]
    rfl
  rw [levelBetween, hdone, Attempt.done_bind, Attempt.mapM_eq_done hsizes, Attempt.done_bind,
    ArrayLevel.ofContents, ← hpieces, List.map_map, Attempt.pure_eq_done]
  congr 2
  refine List.map_congr_left fun r _ => ?_
  rw [Function.comp_apply]
  cases withoutNewlines (between ls r.1 r.2) <;> rfl

/-- Reading levels does not fail, and it ends where the levels of the row end. -/
theorem levelsFrom_eq {b : BracketPair} {isLevel : List Lexeme → Bool} {fuel i : Nat}
    (hfuel : (ls.drop i).length < fuel) :
    levelsFrom b isLevel ls fuel i =
      ofOption ((arrayLevels b isLevel (ls.drop i)).map fun p => (p.1, behind ls i p.2)) := by
  induction fuel generalizing i with
  | zero => omega
  | succ fuel ih =>
    rw [levelsFrom, arrayLevels_eq]
    by_cases hlevel : (startsWithPunct b.opening (ls.drop i) && isLevel (ls.drop i)) = true
    · rw [if_pos hlevel, if_pos hlevel]
      rw [matchingClose_eq (Bool.and_eq_true_iff.1 hlevel).1]
      cases hgroup : b.group? (ls.drop i) with
      | none => simp
      | some p =>
        obtain ⟨inside, rest⟩ := p
        obtain ⟨hclose, hinside, hrest⟩ := between_of_group hgroup
        have hsuffix := BracketPair.suffix_of_group hgroup
        have hshort := BracketPair.length_lt_of_group hgroup
        simp only [Option.map_some, Option.bind_some, Attempt.ofOption_some, Attempt.done_bind]
        rw [levelBetween_eq_done (by omega) (by omega), hinside, Attempt.done_bind, hrest,
          ih (by rw [drop_behind hsuffix]; omega), drop_behind hsuffix]
        cases hmore : arrayLevels b isLevel rest with
        | none => rfl
        | some out =>
          obtain ⟨levels, after⟩ := out
          rw [Option.map_some, Option.map_some, Option.map_some, Attempt.ofOption_some,
            Attempt.done_bind, behind_trans hsuffix (suffix_of_arrayLevels hmore)]
          rfl
    · rw [if_neg hlevel, if_neg hlevel]
      simp [behind]

/-! ## Types -/

/-- A type reference: where it starts, where its element type and where all of it ends. -/
structure TypeExtent where
  start : Nat
  baseStop : Nat
  isPointer : Bool
  levels : List ArrayLevel
  stop : Nat

/-- The element type of a type reference. -/
def TypeExtent.element (ls : List Lexeme) (type : TypeExtent) : Attempt ElementType := do
  let parts ← exprTokens ls type.start type.baseStop
  pure (.ofParts parts type.isPointer)

theorem TypeExtent.element_eq_done {type : TypeExtent} {parts lists : List Lexeme}
    (hparts : ls.drop type.start = parts ++ lists) (hstart : type.start ≤ ls.length)
    (hstop : type.baseStop = type.start + parts.length) :
    type.element ls = .done (.ofParts (withoutNewlines parts) type.isPointer) := by
  rw [element, hstop, exprTokens_of_drop hstart hparts]
  rfl

end ZeroAlloc.Indexed

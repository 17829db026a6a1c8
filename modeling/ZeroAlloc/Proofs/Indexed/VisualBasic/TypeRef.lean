import ZeroAlloc.Proofs.Indexed.Levels
import ZeroAlloc.Proofs.VisualBasic.Extent
set_option autoImplicit false

/-! # Types of Visual Basic by indices

Reading a type never fails, and it ends where the type of the row ends (`typeAt_eq`). -/

namespace ZeroAlloc.Indexed.VisualBasic

open Attempt (ofOption)
open ZeroAlloc.VisualBasic

variable {ls : List Lexeme}

/-- The index behind the type arguments at an index, if there are any. -/
def argumentsStop (ls : List Lexeme) (i : Nat) : Attempt Nat :=
  if startsTypeArguments (ls.drop i) then do
    let close ← matchingClose .parens ls i
    pure (close + 1)
  else pure i

/-- The index behind the type name at an index. -/
def nameStop (ls : List Lexeme) : (fuel i : Nat) → Attempt Nat
  | 0, _ => .fault .stuck
  | fuel + 1, i =>
    match ls.drop i with
    | [] => .absent
    | l :: _ =>
      if l.isIdent && !nonTypeWords.contains (Text.lowerAscii l.text) then do
        let i ← argumentsStop ls (i + 1)
        if startsWithPunct "." (ls.drop i) && startsWithIdent (ls.drop (i + 1)) then
          nameStop ls fuel (i + 1)
        else pure i
      else .absent

/-- The type reference at an index. -/
def typeAt (ls : List Lexeme) (start : Nat) : Attempt TypeExtent := do
  let stop ← nameStop ls (ls.length + 1) start
  let baseStop := if startsWithPunct "?" (ls.drop stop) then stop + 1 else stop
  let (levels, stop) ←
    levelsFrom .parens (fun ls => !startsTypeArguments ls) ls (ls.length + 1) baseStop
  pure ⟨start, baseStop, false, levels, stop⟩

theorem argumentsStop_eq (ls : List Lexeme) (i : Nat) :
    argumentsStop ls i = ofOption ((typeArguments? (ls.drop i)).map fun p => behind ls i p.2) := by
  rw [argumentsStop, typeArguments?]
  split
  · rename_i hstart
    rw [matchingClose_eq (Bool.and_eq_true_iff.1 hstart).1]
    cases hgroup : BracketPair.parens.group? (ls.drop i) with
    | none => rfl
    | some p =>
      obtain ⟨_, _, hrest⟩ := between_of_group hgroup
      simp only [Option.map_some, Attempt.ofOption_some, Attempt.done_bind, hrest]
      rfl
  · simp [behind_self]

theorem nameStop_eq {fuel i : Nat} (hfuel : (ls.drop i).length < fuel) :
    nameStop ls fuel i = ofOption ((typeName? (ls.drop i)).map fun p => behind ls i p.2) := by
  induction fuel generalizing i with
  | zero => omega
  | succ fuel ih =>
    -- a name that goes on at a rest
    have hfurther {next : List Lexeme} (hnext : next <:+ ls.drop i)
        (hshort : next.length < (ls.drop i).length) :
        nameStop ls fuel (behind ls i next) =
          ofOption ((typeName? next).map fun p => behind ls i p.2) := by
      rw [ih (by rw [drop_behind hnext]; omega), drop_behind hnext,
        map_behind hnext fun p hp => (eq_append_of_typeName hp).1 ▸ List.suffix_append _ _]
    rw [nameStop]
    cases hdrop : ls.drop i with
    | nil => simp [typeName?]
    | cons l row =>
      have hsuffix : row <:+ ls.drop i := hdrop ▸ List.suffix_cons l row
      dsimp only
      rw [typeName?_cons]
      split
      · rw [argumentsStop_eq, ← behind_of_eq_cons hdrop, drop_behind hsuffix]
        cases harguments : typeArguments? row with
        | none => rfl
        | some p =>
          obtain ⟨arguments, after⟩ := p
          have hrest : after <:+ row :=
            eq_append_of_typeArguments harguments ▸ List.suffix_append _ _
          have hafter : after <:+ ls.drop i := hrest.trans hsuffix
          have hlong := hrest.length_le
          simp only [Option.map_some, Option.bind_some, Attempt.ofOption_some, Attempt.done_bind]
          rw [behind_trans hsuffix hrest, ← List.tail_drop, drop_behind hafter]
          split
          · rename_i hdot
            -- the name goes on behind the point
            cases after with
            | nil => cases hdot
            | cons dot next =>
              rw [List.length_cons] at hlong
              rw [behind_cons hafter, List.tail_cons,
                hfurther ((List.suffix_cons dot next).trans hafter)
                  (by rw [hdrop, List.length_cons]; omega), Option.map_map]
              rfl
          · rfl
      · rfl

/-! ## Types -/

/-- The extent of a type reference that the row from an index on starts with. -/
def extentOf (ls : List Lexeme) (start : Nat) (p : TypeRef × List Lexeme) : TypeExtent :=
  ⟨start, start + p.1.parts.length, false, p.1.levels, behind ls start p.2⟩

/-- The nullable mark that a row starts with. -/
def nullableMark (row : List Lexeme) : List Lexeme :=
  if startsWithPunct "?" row then row.take 1 else []

/-- Reading a type does not fail. -/
theorem typeAt_eq (ls : List Lexeme) (start : Nat) :
    typeAt ls start = ofOption ((typeRef? (ls.drop start)).map (extentOf ls start)) := by
  have htype : typeRef? (ls.drop start) = (typeName? (ls.drop start)).bind fun p =>
      (bounds? (p.2.drop (nullableMark p.2).length)).map fun q =>
        (⟨p.1 ++ nullableMark p.2, q.1⟩, q.2) := rfl
  rw [typeAt, nameStop_eq (by rw [List.length_drop]; omega), htype]
  cases hname : typeName? (ls.drop start) with
  | none => rfl
  | some p =>
    obtain ⟨name, rest⟩ := p
    have hsplit := (eq_append_of_typeName hname).1
    have hrest : rest <:+ ls.drop start := hsplit ▸ List.suffix_append name rest
    have hbase : (if startsWithPunct "?" rest then behind ls start rest + 1 else
        behind ls start rest) = behind ls start rest + (nullableMark rest).length := by
      rw [nullableMark]
      split
      · cases rest with
        | nil => contradiction
        | cons mark rest => rfl
      · rfl
    obtain ⟨lists, hmark⟩ : ∃ lists, rest = nullableMark rest ++ lists := by
      rw [nullableMark]
      split
      · exact ⟨rest.drop 1, (List.take_append_drop 1 rest).symm⟩
      · exact ⟨rest, rfl⟩
    simp only [Option.map_some, Option.bind_some, Attempt.ofOption_some, Attempt.done_bind,
      drop_behind hrest, hbase]
    generalize nullableMark rest = mark at hmark ⊢
    subst hmark
    have hlists : lists <:+ ls.drop start := (List.suffix_append mark lists).trans hrest
    have hshort : lists.length < ls.length + 1 := by
      have := hlists.length_le
      rw [List.length_drop] at this
      omega
    rw [behind_append hrest, levelsFrom_eq (by rwa [drop_behind hlists]), drop_behind hlists,
      List.drop_left, bounds?]
    cases hlevels : arrayLevels .parens (fun ls => !startsTypeArguments ls) lists with
    | none => rfl
    | some q =>
      obtain ⟨levels, after⟩ := q
      have hafter : after <:+ lists := suffix_of_arrayLevels hlevels
      simp only [Option.map_some, Attempt.ofOption_some, Attempt.done_bind, Attempt.pure_eq_done,
        extentOf, behind_trans hlists hafter]
      congr 2
      rw [@behind_eq ls start (name ++ mark)]
      rw [hsplit, List.append_assoc]

/-- The element type of a type that is read is found. -/
theorem element_extentOf {start : Nat} {p : TypeRef × List Lexeme}
    (h : typeRef? (ls.drop start) = some p) :
    (extentOf ls start p).element ls = .done p.1.element := by
  obtain ⟨lists, hparts, hne, _⟩ := @eq_append_of_typeRef _ p.2 _ h
  have hstart : start ≤ ls.length := by
    refine Nat.le_of_not_lt fun hlt => hne ?_
    rw [List.drop_eq_nil_of_le (Nat.le_of_lt hlt)] at hparts
    exact (List.append_eq_nil_iff.1 hparts.symm).1
  exact TypeExtent.element_eq_done hparts hstart rfl

end ZeroAlloc.Indexed.VisualBasic

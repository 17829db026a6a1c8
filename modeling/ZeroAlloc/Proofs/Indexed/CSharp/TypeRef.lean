import ZeroAlloc.Proofs.CSharp.Extent
import ZeroAlloc.Proofs.Indexed.Levels
set_option autoImplicit false

/-! # Types of C# by indices

Reading a type never fails, and it ends where the type of the row ends (`typeAt_eq`). -/

namespace ZeroAlloc.Indexed.CSharp

open Attempt (ofOption)
open ZeroAlloc.CSharp

variable {ls : List Lexeme}

/-- The index of the bracket that closes a list of type arguments, `depth` angle brackets in. -/
def genericCloseFrom (depth i : Nat) : List Lexeme → Attempt Nat
  | [] => .absent
  | l :: ls =>
    if l.isPunct ">" then do
      let depth ← decrement depth
      if depth = 0 then pure i else genericCloseFrom depth (i + 1) ls
    else if l.isPunct "<" then genericCloseFrom (depth + 1) (i + 1) ls
    else if l.isIdent || isTypeArgumentMark l then genericCloseFrom depth (i + 1) ls
    else .absent

/-- The index of the bracket that closes the list of type arguments with the given opening one. -/
def genericClose (ls : List Lexeme) (opening : Nat) : Attempt Nat := do
  let row ← rowFrom ls opening
  genericCloseFrom 0 opening row

/-- The index behind the type arguments at an index, if there are any. -/
def argumentsStop (ls : List Lexeme) (i : Nat) : Attempt Nat :=
  if startsWithPunct "<" (ls.drop i) then do
    let close ← genericClose ls i
    pure (close + 1)
  else pure i

/-- The index behind the type name at an index. -/
def nameStop (ls : List Lexeme) : (fuel i : Nat) → Attempt Nat
  | 0, _ => .fault .stuck
  | fuel + 1, i =>
    match ls.drop i with
    | [] => .absent
    | l :: rest =>
      if isTypeWord l rest then do
        let i ← argumentsStop ls (i + 1)
        match qualifier? (ls.drop i) with
        | some (mark, _) => nameStop ls fuel (i + mark.length)
        | none => pure i
      else .absent

/-- The index behind the tuple or type name at an index. -/
def headStop (ls : List Lexeme) (start : Nat) : Attempt Nat :=
  if startsWithPunct "(" (ls.drop start) then do
    let close ← matchingClose .parens ls start
    pure (close + 1)
  else nameStop ls (ls.length + 1) start

/-- The type reference at an index. -/
def typeAt (ls : List Lexeme) (start : Nat) : Attempt TypeExtent := do
  let stop ← headStop ls start
  let marks := (ls.drop stop).takeWhile fun l => l.isPunct "?" || l.isPunct "*"
  let baseStop := stop + marks.length
  let (levels, stop) ← levelsFrom .squares (fun _ => true) ls (ls.length + 1) baseStop
  pure ⟨start, baseStop, marks.any (·.isPunct "*"), levels, stop⟩

/-! ## Names -/

theorem genericCloseFrom_eq (depth i : Nat) (row : List Lexeme) :
    genericCloseFrom (depth + 1) i row =
      ofOption ((typeArgumentsFrom? depth row).map fun p => i + (row.length - p.2.length) - 1) := by
  induction row generalizing depth i with
  | nil => rfl
  | cons l row ih =>
    -- the rest is that of the row behind the lexeme, so the lexeme adds one to the index
    have hnext (depth : Nat) : genericCloseFrom (depth + 1) (i + 1) row =
        ofOption (((typeArgumentsFrom? depth row).map fun p => (l :: p.1, p.2)).map fun p =>
          i + ((l :: row).length - p.2.length) - 1) := by
      rw [ih]
      cases htaken : typeArgumentsFrom? depth row with
      | none => rfl
      | some p =>
        have := length_lt_of_typeArgumentsFrom htaken
        simp only [Option.map_some, Attempt.ofOption_some, List.length_cons]
        congr 1
        omega
    rw [genericCloseFrom, typeArgumentsFrom?.eq_def]
    dsimp only
    split
    · rw [decrement_succ, Attempt.done_bind]
      cases depth with
      | zero =>
        rw [if_pos rfl, Option.map_some, List.length_cons, Nat.add_sub_cancel_left]
        rfl
      | succ depth =>
        rw [if_neg (Nat.succ_ne_zero depth)]
        exact hnext depth
    · split
      · exact hnext (depth + 1)
      · split
        · exact hnext depth
        · rfl

theorem argumentsStop_eq (ls : List Lexeme) (i : Nat) :
    argumentsStop ls i = ofOption ((typeArguments? (ls.drop i)).map fun p => behind ls i p.2) := by
  rw [argumentsStop]
  cases hdrop : ls.drop i with
  | nil => simp [startsWithPunct, typeArguments?, behind, hdrop]
  | cons l row =>
    rw [typeArguments?, show startsWithPunct "<" (l :: row) = l.isPunct "<" from rfl]
    split
    · rename_i hopen
      have hclose : l.isPunct ">" = false := BracketPair.isPunct_eq_false (by decide) hopen
      have hi : i ≤ ls.length := by
        have := congrArg List.length hdrop
        rw [List.length_drop, List.length_cons] at this
        omega
      rw [genericClose, rowFrom_eq_done hi, Attempt.done_bind, hdrop, genericCloseFrom, hclose,
        if_neg (by decide), if_pos hopen, genericCloseFrom_eq]
      cases htaken : typeArgumentsFrom? 0 row with
      | none => rfl
      | some p =>
        have := length_lt_of_typeArgumentsFrom htaken
        simp only [Option.map_some, Attempt.ofOption_some, Attempt.done_bind, Attempt.pure_eq_done,
          behind, hdrop, List.length_cons]
        congr 1
        omega
    · simp [behind, hdrop]

theorem nameStop_eq {fuel i : Nat} (hfuel : (ls.drop i).length < fuel) :
    nameStop ls fuel i = ofOption ((typeName? (ls.drop i)).map fun p => behind ls i p.2) := by
  induction fuel generalizing i with
  | zero => omega
  | succ fuel ih =>
    -- a name that goes on at a rest
    have hfurther {next : List Lexeme} (hnext : next <:+ ls.drop i)
        (hshort : next.length < (ls.drop i).length) :
        nameStop ls fuel (behind ls i next) =
          ofOption ((typeName? next).map fun p => behind ls i p.2) := by
      rw [ih (by rw [drop_behind hnext]; omega), drop_behind hnext,
        map_behind hnext fun p hp => (eq_append_of_typeName hp).1 ▸ List.suffix_append _ _]
    rw [nameStop]
    cases hdrop : ls.drop i with
    | nil => simp [typeName?]
    | cons l row =>
      have hsuffix : row <:+ ls.drop i := hdrop ▸ List.suffix_cons l row
      dsimp only
      rw [typeName?_cons]
      split
      · rw [argumentsStop_eq, ← behind_of_eq_cons hdrop, drop_behind hsuffix]
        cases harguments : typeArguments? row with
        | none => rfl
        | some p =>
          obtain ⟨arguments, after⟩ := p
          have hrest : after <:+ row :=
            eq_append_of_typeArguments harguments ▸ List.suffix_append _ _
          have hafter : after <:+ ls.drop i := hrest.trans hsuffix
          have hlong := hrest.length_le
          simp only [Option.map_some, Option.bind_some, Attempt.ofOption_some, Attempt.done_bind]
          rw [behind_trans hsuffix hrest, drop_behind hafter]
          cases hqualifier : qualifier? after with
          | none => rfl
          | some q =>
            obtain ⟨mark, next⟩ := q
            obtain rfl := eq_append_of_qualifier hqualifier
            rw [List.length_append] at hlong
            dsimp only
            rw [behind_append hafter, hfurther ((List.suffix_append mark next).trans hafter)
              (by rw [hdrop, List.length_cons]; omega), Option.map_map]
            rfl
      · rfl

/-! ## Types -/

/-- The extent of a type reference that the row from an index on starts with. -/
def extentOf (ls : List Lexeme) (start : Nat) (p : TypeRef × List Lexeme) : TypeExtent :=
  ⟨start, start + p.1.parts.length, p.1.isPointer, p.1.levels, behind ls start p.2⟩

/-- The tuple or type name that a row starts with. -/
def head? (row : List Lexeme) : Option (List Lexeme × List Lexeme) :=
  if startsWithPunct "(" row then tuple? row else typeName? row

theorem headStop_eq (ls : List Lexeme) (start : Nat) :
    headStop ls start = ofOption ((head? (ls.drop start)).map fun p => behind ls start p.2) := by
  rw [headStop, head?]
  split
  · rename_i hopen
    rw [matchingClose_eq hopen, tuple?]
    cases hgroup : BracketPair.parens.group? (ls.drop start) with
    | none => rfl
    | some p =>
      obtain ⟨_, _, hrest⟩ := between_of_group hgroup
      simp only [Option.map_some, Attempt.ofOption_some, Attempt.done_bind, hrest]
      rfl
  · exact nameStop_eq (by rw [List.length_drop]; omega)

theorem eq_append_of_head {row name rest : List Lexeme} (h : head? row = some (name, rest)) :
    row = name ++ rest := by
  rw [head?] at h
  split at h
  · exact (eq_append_of_tuple h).1
  · exact (eq_append_of_typeName h).1

/-- Reading a type does not fail. -/
theorem typeAt_eq (ls : List Lexeme) (start : Nat) :
    typeAt ls start = ofOption ((typeRef? (ls.drop start)).map (extentOf ls start)) := by
  have htype : typeRef? (ls.drop start) = (head? (ls.drop start)).bind fun p =>
      let isMark (l : Lexeme) := l.isPunct "?" || l.isPunct "*"
      let marks := p.2.takeWhile isMark
      (arrayLevels .squares (fun _ => true) (p.2.dropWhile isMark)).map fun q =>
        (⟨p.1 ++ marks, marks.any (·.isPunct "*"), q.1⟩, q.2) := rfl
  rw [typeAt, headStop_eq, htype]
  cases hhead : head? (ls.drop start) with
  | none => rfl
  | some p =>
    obtain ⟨name, rest⟩ := p
    have hname := eq_append_of_head hhead
    have hrest : rest <:+ ls.drop start := hname ▸ List.suffix_append name rest
    -- the marks stand between the name and the levels
    have hmarks := @List.takeWhile_append_dropWhile _ (fun l => l.isPunct "?" || l.isPunct "*") rest
    generalize hm : rest.takeWhile (fun l => l.isPunct "?" || l.isPunct "*") = marks at hmarks
    generalize hl : rest.dropWhile (fun l => l.isPunct "?" || l.isPunct "*") = lists at hmarks
    subst hmarks
    have hlists : lists <:+ ls.drop start := (List.suffix_append marks lists).trans hrest
    simp only [Option.map_some, Option.bind_some, Attempt.ofOption_some, Attempt.done_bind,
      drop_behind hrest, hm, hl, behind_append hrest]
    rw [levelsFrom_eq (by rw [drop_behind hlists]; have := hlists.length_le; simp at this; omega),
      drop_behind hlists]
    cases hlevels : arrayLevels .squares (fun _ => true) lists with
    | none => rfl
    | some q =>
      obtain ⟨levels, after⟩ := q
      have hafter : after <:+ lists := suffix_of_arrayLevels hlevels
      simp only [Option.map_some, Attempt.ofOption_some, Attempt.done_bind, Attempt.pure_eq_done,
        extentOf, behind_trans hlists hafter]
      congr 2
      rw [@behind_eq ls start (name ++ marks)]
      rw [hname, List.append_assoc]

/-- The element type of a type that is read is found. -/
theorem element_extentOf {start : Nat} {p : TypeRef × List Lexeme}
    (h : typeRef? (ls.drop start) = some p) :
    (extentOf ls start p).element ls = .done p.1.element := by
  obtain ⟨lists, hparts, hne, _⟩ := @eq_append_of_typeRef _ p.2 _ h
  have hstart : start ≤ ls.length := by
    refine Nat.le_of_not_lt fun hlt => hne ?_
    rw [List.drop_eq_nil_of_le (Nat.le_of_lt hlt)] at hparts
    exact (List.append_eq_nil_iff.1 hparts.symm).1
  exact TypeExtent.element_eq_done hparts hstart rfl

end ZeroAlloc.Indexed.CSharp

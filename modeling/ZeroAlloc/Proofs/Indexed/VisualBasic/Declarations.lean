import ZeroAlloc.Proofs.Indexed.Text
import ZeroAlloc.Proofs.Indexed.Tree
import ZeroAlloc.Proofs.Indexed.VisualBasic.TypeRef
import ZeroAlloc.Proofs.Text.Case
import ZeroAlloc.Proofs.Declaration
import ZeroAlloc.VisualBasic.Declaration
set_option autoImplicit false

/-! # Declarations of Visual Basic by indices

Imports, constants and generic methods of a file are found without failing. -/

namespace ZeroAlloc.Indexed.VisualBasic

open Attempt (ofOption)
open Text (byteLength)
open ZeroAlloc.VisualBasic
open Indexed.Tree

/-! ## Names -/

/-- The name without a leading `Global.`, which is cut off by its bytes. -/
def stripGlobal (name : String) : Attempt String :=
  match textBetween name.toList 0 7 with
  | .done mark =>
    if Text.lowerAscii (String.ofList mark) == "global." then do
      let rest ← textFrom name.toList 7
      pure (String.ofList rest)
    else pure name
  | _ => pure name

/-- The mark has seven characters of one byte each, in any case. -/
theorem length_of_global {mark : List Char}
    (h : Text.lowerAscii (String.ofList mark) = "global.") :
    mark.length = 7 ∧ byteLength mark = 7 := by
  have hmap : mark.map Char.toLower = "global.".toList := by
    rw [← h, Text.lowerAscii, String.toList_ofList, String.toList_ofList]
  refine ⟨?_, ?_⟩
  · rw [← List.length_map Char.toLower, hmap]
    rfl
  · rw [← Text.byteLength_map_toLower, hmap]
    rfl

/-- Cutting off a leading `Global.` does not fail. -/
theorem stripGlobal_eq_done (name : String) : stripGlobal name = .done (withoutGlobal name) := by
  have hname : withoutGlobal name =
      if Text.lowerAscii (String.ofList (name.toList.take 7)) == "global." then
        String.ofList (name.toList.drop 7) else name := rfl
  rw [hname, stripGlobal]
  by_cases hglobal : Text.lowerAscii (String.ofList (name.toList.take 7)) = "global."
  · have hbytes := (length_of_global hglobal).2
    have hmark := textBetween_append [] (name.toList.take 7) (name.toList.drop 7)
    have hrest := textFrom_append (name.toList.take 7) (name.toList.drop 7)
    rw [List.nil_append, byteLength, Nat.zero_add, hbytes, List.take_append_drop] at hmark
    rw [hbytes, List.take_append_drop] at hrest
    simp [hmark, hrest, hglobal]
  · rw [if_neg (by simpa using hglobal)]
    split
    · rename_i mark hmark
      rw [if_neg]
      · rfl
      · intro hlower
        have hlength := (length_of_global (by simpa using hlower)).1
        -- the mark is what the name starts with
        rw [textBetween] at hmark
        split at hmark
        · cases hmark
          have hsplit : Text.sliceBytes name.toList 0 7 ++ Text.dropBytes 7 name.toList =
              name.toList := by
            rw [Text.sliceBytes, Text.dropBytes]
            exact Text.takeBytes_append_dropBytes 7 name.toList
          refine hglobal ?_
          rw [← hsplit, List.take_left' hlength]
          simpa using hlower
        · cases hmark
    · rfl

/-! ## Imports -/

/-- The clause of an import statement that starts at an index: what it imports, if anything, and the
index behind it. There is none if its type arguments are left open. -/
def importClauseAt (t : Tree) (start : Nat) : Attempt (Option PlacedImport × Nat) :=
  if startsWithPunct "<" (t.row.drop start) then
    -- an XML namespace
    let skipped := (t.row.drop start).takeWhile fun l => !l.isPunct ">"
    pure (none, start + skipped.length + 1)
  else do
    let (aliasName, clause) := splitAlias (t.row.drop start)
    let nameStart := behind t.row start clause
    let stop ← argumentsStop t.row (nameStart + (clause.takeWhile isNamePart).length)
    if nameStart < stop then do
      let name ← piece t.row nameStart stop
      let path ← stripGlobal (joined name)
      let last ← decrement stop
      let span ← t.tokenSpan start last
      pure (some ⟨path, aliasName, span⟩, stop)
    else pure (none, stop)

/-- The imports of a statement whose clauses start at an index. -/
def importClausesFrom (t : Tree) : (fuel start : Nat) → Attempt (List PlacedImport)
  | 0, _ => .fault .stuck
  | fuel + 1, start => do
    let clause? ← (importClauseAt t start).optional
    match clause? with
    | none => pure []
    | some (found, stop) => do
      let more ←
        if startsWithPunct "," (t.row.drop stop) then importClausesFrom t fuel (stop + 1)
        else pure []
      pure (found.toList ++ more)

/-- The imports of the statement at an index. -/
def importsAt (t : Tree) (i : Nat) : Attempt (List PlacedImport) :=
  if startsWithKeyword "imports" (t.row.drop i) && startsStatementAfter (t.row.take i).reverse then
    importClausesFrom t (t.row.length + 1) (i + 1)
  else pure []

variable {t : Tree}

/-- Behind a run of lexemes and the one that ends it. -/
theorem drop_takeWhile_succ (p : Lexeme → Bool) (ls : List Lexeme) (start : Nat) :
    ls.drop (start + ((ls.drop start).takeWhile p).length + 1) =
      ((ls.drop start).dropWhile p).tail := by
  have hsplit := @List.takeWhile_append_dropWhile _ p (ls.drop start)
  rw [← List.tail_drop, ← List.drop_drop]
  generalize (ls.drop start).takeWhile p = skipped at hsplit ⊢
  generalize (ls.drop start).dropWhile p = rest at hsplit ⊢
  rw [← hsplit, List.drop_left]

/-- Placing what the name of a clause imports does not fail. -/
theorem placeName_eq (ht : t.IsTiled) {start nameStart stop : Nat} {name rest : List Lexeme}
    (aliasName : Option String) (hstart : start ≤ nameStart)
    (hdrop : t.row.drop nameStart = name ++ rest) (hstop : nameStart + name.length = stop) :
    (if nameStart < stop then do
      let name ← piece t.row nameStart stop
      let path ← stripGlobal (joined name)
      let last ← decrement stop
      let span ← t.tokenSpan start last
      pure (some ⟨path, aliasName, span⟩, stop)
    else pure (none, stop)) =
      Attempt.done ((if name.isEmpty then none else some
        (⟨withoutGlobal (joined name), aliasName, start, stop - 1⟩ : Import)).map t.placeImport,
          stop) := by
  by_cases hempty : name = []
  · subst hempty
    rw [if_neg (by simp at hstop; omega)]
    rfl
  · have hlong := List.length_pos_iff.2 hempty
    have hbetween := between_of_drop hdrop
    rw [hstop] at hbetween
    obtain ⟨last, rfl⟩ : ∃ last, stop = last + 1 := Nat.exists_eq_succ_of_ne_zero (by omega)
    have hend : last + 1 ≤ t.row.length := by
      have := congrArg List.length hdrop
      rw [List.length_drop, List.length_append] at this
      omega
    rw [if_pos (by omega), piece_eq_done (by omega), Attempt.done_bind, hbetween,
      stripGlobal_eq_done, Attempt.done_bind, decrement_succ, Attempt.done_bind,
      tokenSpan_eq_done ht (by omega) (by omega), if_neg (by simpa using hempty)]
    simp only [Attempt.done_bind, Attempt.pure_eq_done, Option.map_some, placeImport,
      Nat.add_sub_cancel]

/-- Reading a clause does not fail, and the row goes on behind it. -/
theorem importClauseAt_eq (ht : t.IsTiled) {start : Nat} {found : Option Import}
    {rest : List Lexeme}
    (h : importClause? start (t.row.drop start) = some (found, rest)) :
    ∃ stop, importClauseAt t start = .done (found.map t.placeImport, stop) ∧ start ≤ stop ∧
      t.row.drop stop = rest := by
  rw [importClause?] at h
  rw [importClauseAt]
  split at h
  · rename_i hxml
    cases h
    rw [if_pos hxml]
    exact ⟨_, rfl, by omega, drop_takeWhile_succ _ _ _⟩
  · rename_i hxml
    rw [if_neg hxml]
    have hclause := suffix_splitAlias (t.row.drop start)
    generalize splitAlias (t.row.drop start) = split at h hclause ⊢
    obtain ⟨aliasName, clause⟩ := split
    dsimp only at h hclause ⊢
    have hname := @List.takeWhile_append_dropWhile _ isNamePart clause
    generalize clause.takeWhile isNamePart = name at h hname ⊢
    generalize clause.dropWhile isNamePart = more at h hname
    subst hname
    obtain ⟨⟨arguments, after⟩, harguments, he⟩ := Option.map_eq_some_iff.1 h
    obtain rfl := eq_append_of_typeArguments harguments
    cases he
    have hmore : arguments ++ after <:+ t.row.drop start :=
      (List.suffix_append name _).trans hclause
    have hafter : after <:+ arguments ++ after := List.suffix_append arguments after
    have hdrop : t.row.drop (behind t.row start (name ++ (arguments ++ after))) =
        (name ++ arguments) ++ after := by
      rw [drop_behind hclause, List.append_assoc]
    -- the name with its type arguments ends where the rest starts
    have hstop : behind t.row start (name ++ (arguments ++ after)) + (name ++ arguments).length =
        behind t.row start after := by
      rw [← List.append_assoc] at hclause ⊢
      exact behind_append hclause
    rw [behind_append hclause, argumentsStop_eq, drop_behind hmore, harguments]
    simp only [Option.map_some, Attempt.ofOption_some, Attempt.done_bind,
      behind_trans hmore hafter]
    exact ⟨behind t.row start after, placeName_eq ht aliasName (Nat.le_add_right _ _) hdrop hstop,
      Nat.le_add_right _ _, drop_behind (hafter.trans hmore)⟩

theorem importClauseAt_eq_absent {start : Nat}
    (h : importClause? start (t.row.drop start) = none) : importClauseAt t start = .absent := by
  rw [importClause?] at h
  split at h
  · cases h
  · rename_i hxml
    rw [importClauseAt, if_neg hxml]
    have hclause := suffix_splitAlias (t.row.drop start)
    generalize splitAlias (t.row.drop start) = split at h hclause ⊢
    obtain ⟨aliasName, clause⟩ := split
    dsimp only at h hclause ⊢
    have hname := @List.takeWhile_append_dropWhile _ isNamePart clause
    generalize clause.takeWhile isNamePart = name at h hname ⊢
    generalize clause.dropWhile isNamePart = more at h hname
    subst hname
    have hmore : more <:+ t.row.drop start := (List.suffix_append name more).trans hclause
    rw [behind_append hclause, argumentsStop_eq, drop_behind hmore, Option.map_eq_none_iff.1 h]
    rfl

theorem importClausesFrom_eq (ht : t.IsTiled) {fuel start : Nat}
    (hfuel : (t.row.drop start).length < fuel) :
    importClausesFrom t fuel start =
      .done ((importClauses start (t.row.drop start)).map t.placeImport) := by
  induction fuel generalizing start with
  | zero => omega
  | succ fuel ih =>
    rw [importClausesFrom, importClauses_eq]
    cases hclause : importClause? start (t.row.drop start) with
    | none =>
      rw [importClauseAt_eq_absent hclause]
      rfl
    | some p =>
      obtain ⟨found, rest⟩ := p
      obtain ⟨stop, hread, hle, rfl⟩ := importClauseAt_eq ht hclause
      have hlist : found.toList.map t.placeImport = (found.map t.placeImport).toList := by
        rw [Option.toList_map]
      rw [hread]
      simp only [Attempt.optional, Attempt.done_bind]
      split
      · rename_i hcomma
        have hlt := lt_length_of_startsWithPunct hcomma
        have hnext : start + ((t.row.drop start).length - (t.row.drop (stop + 1)).length) =
            stop + 1 := by
          rw [List.length_drop, List.length_drop]
          omega
        rw [List.length_drop] at hfuel
        rw [List.tail_drop, hnext, ih (by rw [List.length_drop]; omega), List.map_append, hlist]
        rfl
      · rw [List.append_nil, hlist, Attempt.pure_eq_done, Attempt.done_bind, List.append_nil]
        rfl

/-- The imports of the statement at a place. -/
def importsOf (before here : List Lexeme) : List Import :=
  if startsWithKeyword "imports" here && startsStatementAfter before then
    importClauses (before.length + 1) here.tail
  else []

/-- Finding imports does not fail. -/
theorem importsAt_eq (ht : t.IsTiled) {i : Nat} (hi : i < t.row.length) :
    importsAt t i =
      .done ((importsOf (t.row.take i).reverse (t.row.drop i)).map t.placeImport) := by
  have hlength := length_reverse_take (Nat.le_of_lt hi)
  rw [importsAt, importsOf, hlength, List.tail_drop]
  split
  · exact importClausesFrom_eq ht (by rw [List.length_drop]; omega)
  · rfl

/-! ## Constants -/

/-- The constants that the declarators at an index declare. -/
def constantDeclaratorsFrom (ls : List Lexeme) :
    (fuel position : Nat) → Attempt (List (String × List Lexeme))
  | 0, _ => .fault .stuck
  | fuel + 1, position =>
    match ls.drop position with
    | [] => pure []
    | name :: type =>
      let mark := position + 1 + (type.takeWhile (!endsDeclarator ·)).length
      if name.isIdent && startsWithPunct "=" (ls.drop mark) then do
        let start := mark + 1
        let stop := start + (definition endsDefinition 0 (ls.drop start)).1.length
        let value ← exprTokens ls start stop
        let more ←
          if startsWithPunct "," (ls.drop stop) then constantDeclaratorsFrom ls fuel (stop + 1)
          else pure []
        pure ((Text.lowerAscii name.text, value) :: more)
      else pure []

/-- The constants that are declared at an index. -/
def constantsAt (ls : List Lexeme) (i : Nat) : Attempt (List (String × List Lexeme)) :=
  if startsWithKeyword "const" (ls.drop i) then
    constantDeclaratorsFrom ls (ls.length + 1) (i + 1)
  else pure []

theorem constantDeclaratorsFrom_eq {ls : List Lexeme} {fuel position : Nat}
    (hfuel : (ls.drop position).length < fuel) :
    constantDeclaratorsFrom ls fuel position =
      .done (constantDeclarators (ls.drop position)) := by
  induction fuel generalizing position with
  | zero => omega
  | succ fuel ih =>
    rw [constantDeclaratorsFrom]
    cases hls : ls.drop position with
    | nil =>
      rw [constantDeclarators]
      rfl
    | cons name type =>
      rw [hls, List.length_cons] at hfuel
      have htype : ls.drop (position + 1) = type := drop_succ_of_eq_cons hls
      dsimp only
      rw [constantDeclarators_cons]
      have hsplit := @List.takeWhile_append_dropWhile _ (!endsDeclarator ·) type
      generalize type.takeWhile (!endsDeclarator ·) = declarator at hsplit ⊢
      generalize type.dropWhile (!endsDeclarator ·) = marked at hsplit ⊢
      subst hsplit
      dsimp only
      have hmarked : ls.drop (position + 1 + declarator.length) = marked := by
        rw [← List.drop_drop, htype, List.drop_left]
      have hvalue : ls.drop (position + 1 + declarator.length + 1) = marked.tail := by
        rw [← List.tail_drop, hmarked]
      rw [hmarked, hvalue]
      split
      · rename_i hguard
        have hmark := (Bool.and_eq_true_iff.1 hguard).2
        rw [← hmarked] at hmark
        rw [List.length_append] at hfuel
        exact constantAt_eq _ (lt_length_of_startsWithPunct hmark) hvalue fun _ hshort =>
          ih (by rw [List.length_tail] at hshort; omega)
      · rfl

/-- What is declared at a place of the row. -/
def constantsOf (here : List Lexeme) : List (String × List Lexeme) :=
  if startsWithKeyword "const" here then constantDeclarators here.tail else []

/-- Finding constants does not fail. -/
theorem constantsAt_eq (ls : List Lexeme) (i : Nat) :
    constantsAt ls i = .done (constantsOf (ls.drop i)) := by
  rw [constantsAt, constantsOf, List.tail_drop]
  split
  · exact constantDeclaratorsFrom_eq (by rw [List.length_drop]; omega)
  · rfl

/-! ## Generic methods -/

/-- The scopes that are open behind the lexeme with an index. -/
def scopesAt (ls : List Lexeme) (scopes : List Scope) (i : Nat) : Attempt (List Scope) :=
  match ls.drop i with
  | [] => pure scopes
  | l :: row =>
    let previous := ((ls.take i).reverse.head?.map fun l => Text.lowerAscii l.text).getD ""
    if isKeyword l "namespace" && previous != "end" then do
      let parts ← run isNamePart ls (i + 1)
      let name ← stripGlobal (joined parts)
      pure (.namespaceBody name :: scopes)
    else pure (scopesAfter scopes (ls.take i).reverse (l :: row))

/-- The generic methods at `count` places from an index on. -/
def genericMethodsFrom (ls : List Lexeme) (scopes : List Scope) (i : Nat) :
    (count : Nat) → Attempt (List GenericMethod)
  | 0 => pure []
  | count + 1 => do
    let found := (genericMethod? scopes (ls.take i).reverse (ls.drop i)).toList
    let scopes ← scopesAt ls scopes i
    let more ← genericMethodsFrom ls scopes (i + 1) count
    pure (found ++ more)

theorem scopesAt_eq (ls : List Lexeme) (scopes : List Scope) (i : Nat) :
    scopesAt ls scopes i = .done (scopesAfter scopes (ls.take i).reverse (ls.drop i)) := by
  rw [scopesAt, run_eq_done]
  generalize (ls.take i).reverse = before
  cases hrow : ls.drop i with
  | nil => rfl
  | cons l row =>
    have htail : ls.drop (i + 1) = row := drop_succ_of_eq_cons hrow
    dsimp only
    split
    · rename_i hguard
      simp only [isKeyword, Bool.and_eq_true, beq_iff_eq, bne_iff_ne] at hguard
      rw [Attempt.done_bind, htail, stripGlobal_eq_done, Attempt.done_bind]
      simp [scopesAfter, hguard]
    · rfl

/-- Finding generic methods does not fail. -/
theorem genericMethodsFrom_eq {ls : List Lexeme} {i count : Nat} (hcount : i + count = ls.length)
    (scopes : List Scope) :
    genericMethodsFrom ls scopes i count =
      .done (ZeroAlloc.VisualBasic.genericMethodsFrom scopes (ls.take i).reverse (ls.drop i)) := by
  induction count generalizing i scopes with
  | zero =>
    rw [List.drop_eq_nil_of_le (by omega)]
    rfl
  | succ count ih =>
    have hi : i < ls.length := by omega
    rw [genericMethodsFrom, scopesAt_eq, Attempt.done_bind, ih (by omega), Attempt.done_bind,
      List.drop_eq_getElem_cons hi, ZeroAlloc.VisualBasic.genericMethodsFrom,
      ← reverse_take_succ hi]
    rfl

end ZeroAlloc.Indexed.VisualBasic

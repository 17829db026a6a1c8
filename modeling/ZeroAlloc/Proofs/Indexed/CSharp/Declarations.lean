import ZeroAlloc.CSharp.Declaration
import ZeroAlloc.Proofs.Declaration
import ZeroAlloc.Proofs.Indexed.CSharp.TypeRef
import ZeroAlloc.Proofs.Indexed.Tree
set_option autoImplicit false

/-! # Declarations of C# by indices

Imports, constants and generic methods of a file are found without failing. -/

namespace ZeroAlloc.Indexed.CSharp

open Attempt (ofOption)
open ZeroAlloc.CSharp
open Indexed.Tree

/-! ## Imports -/

/-- The directive whose word `using` has the given index. -/
def importAt (t : Tree) (i : Nat) : Attempt PlacedImport :=
  let (aliasName, clause) := splitAlias (t.row.drop (i + 1))
  let start := behind t.row (i + 1) clause
  let name := clause.takeWhile isImportPart
  let stop := start + name.length
  if startsWithText ["static"] (t.row.drop (i + 1)) || name.isEmpty ||
      !startsWithPunct ";" (t.row.drop stop) then .absent
  else do
    let name ← piece t.row start stop
    let span ← t.tokenSpan i stop
    pure ⟨withoutGlobal (joined name), aliasName, span⟩

/-- The imports at `count` places from an index on, inside `depth` braces. -/
def importsFrom (t : Tree) (depth i : Nat) : (count : Nat) → Attempt (List PlacedImport)
  | 0 => pure []
  | count + 1 =>
    match t.row.drop i with
    | [] => pure []
    | l :: _ =>
      if l.isPunct "\x7b" then importsFrom t (depth + 1) (i + 1) count
      else if l.isPunct "\x7d" then importsFrom t (depth - 1) (i + 1) count
      else if depth == 0 && l.isWord "using" && canImportAfter (t.row.take i).reverse then do
        let found ← (importAt t i).toList
        let more ← importsFrom t depth (i + 1) count
        pure (found ++ more)
      else importsFrom t depth (i + 1) count

variable {t : Tree}

theorem importAt_eq (ht : t.IsTiled) (i : Nat) :
    importAt t i = ofOption ((import? i (t.row.drop (i + 1))).map t.placeImport) := by
  have hclause := suffix_splitAlias (t.row.drop (i + 1))
  rw [importAt, import?]
  generalize splitAlias (t.row.drop (i + 1)) = split at hclause ⊢
  obtain ⟨aliasName, clause⟩ := split
  dsimp only at hclause ⊢
  have hname := @List.takeWhile_append_dropWhile _ isImportPart clause
  generalize clause.takeWhile isImportPart = name at hname ⊢
  generalize clause.dropWhile isImportPart = rest at hname ⊢
  subst hname
  have hrest : rest <:+ t.row.drop (i + 1) := (List.suffix_append name rest).trans hclause
  rw [behind_append hclause, drop_behind hrest]
  split
  · rfl
  · rename_i hguard
    simp only [Bool.or_eq_true, Bool.not_eq_true', not_or, Bool.not_eq_false] at hguard
    have hstop : behind t.row (i + 1) rest < t.row.length :=
      lt_length_of_startsWithPunct (by rw [drop_behind hrest]; exact hguard.2)
    have hle : i ≤ behind t.row (i + 1) rest := by
      rw [behind]
      omega
    have hpath : piece t.row (behind t.row (i + 1) (name ++ rest)) (behind t.row (i + 1) rest) =
        .done name := by
      rw [← behind_append hclause, piece_eq_done (Nat.le_add_right _ _),
        between_of_drop (drop_behind hclause)]
    rw [hpath, Attempt.done_bind, tokenSpan_eq_done ht hle hstop]
    rfl

/-- Finding imports does not fail. -/
theorem importsFrom_eq (ht : t.IsTiled) {i count : Nat} (hcount : i + count = t.row.length)
    (depth : Nat) :
    importsFrom t depth i count =
      .done ((ZeroAlloc.CSharp.importsFrom (t.row.take i).reverse i depth (t.row.drop i)).map
        t.placeImport) := by
  induction count generalizing i depth with
  | zero =>
    rw [List.drop_eq_nil_of_le (by omega)]
    rfl
  | succ count ih =>
    have hi : i < t.row.length := by omega
    have hnext (depth : Nat) := @ih (i + 1) (by omega) depth
    rw [importsFrom, List.drop_eq_getElem_cons hi, ZeroAlloc.CSharp.importsFrom,
      ← reverse_take_succ hi]
    dsimp only
    split
    · exact hnext _
    · split
      · exact hnext _
      · split
        · rw [importAt_eq ht, Attempt.toList_ofOption, Attempt.done_bind, hnext, Attempt.done_bind,
            List.map_append, Option.toList_map]
          rfl
        · exact hnext _

/-! ## Constants -/

/-- The constants that the declarators at an index declare. -/
def constantDeclaratorsFrom (ls : List Lexeme) :
    (fuel position : Nat) → Attempt (List (String × List Lexeme))
  | 0, _ => .fault .stuck
  | fuel + 1, position =>
    match ls.drop position with
    | name :: mark :: value =>
      if name.isIdent && mark.isPunct "=" then do
        let start := position + 2
        let stop := start + (definition endsDefinition 0 value).1.length
        let value ← exprTokens ls start stop
        let more ←
          if startsWithPunct "," (ls.drop stop) then constantDeclaratorsFrom ls fuel (stop + 1)
          else pure []
        pure ((name.text, value) :: more)
      else pure []
    | _ => pure []

/-- The constants that are declared at an index. -/
def constantsAt (ls : List Lexeme) (i : Nat) : Attempt (List (String × List Lexeme)) :=
  if (ls.drop i).head?.any (·.isWord "const") then do
    let type? ← (typeAt ls (i + 1)).optional
    match type? with
    | some type => constantDeclaratorsFrom ls (ls.length + 1) type.stop
    | none => pure []
  else pure []

theorem constantDeclaratorsFrom_eq {ls : List Lexeme} {fuel position : Nat}
    (hfuel : (ls.drop position).length < fuel) :
    constantDeclaratorsFrom ls fuel position =
      .done (constantDeclarators (ls.drop position)) := by
  induction fuel generalizing position with
  | zero => omega
  | succ fuel ih =>
    rw [constantDeclaratorsFrom]
    match hls : ls.drop position with
    | [] =>
      rw [constantDeclarators]
      · rfl
      · simp
    | [_] =>
      rw [constantDeclarators]
      · rfl
      · simp
    | name :: mark :: value =>
      have hvalue : ls.drop (position + 2) = value := by
        rw [← List.drop_drop, hls]
        rfl
      have hlength := congrArg List.length hls
      rw [hls] at hfuel
      simp only [List.length_drop, List.length_cons] at hlength hfuel
      dsimp only
      rw [constantDeclarators_cons]
      split
      · exact constantAt_eq name.text (by omega) hvalue fun _ hshort => ih (by omega)
      · rfl

/-- What is declared at a place of the row. -/
def constants? (here : List Lexeme) : List (String × List Lexeme) :=
  if here.head?.any (·.isWord "const") then
    match typeRef? here.tail with
    | some (_, rest) => constantDeclarators rest
    | none => []
  else []

/-- Finding constants does not fail. -/
theorem constantsAt_eq (ls : List Lexeme) (i : Nat) :
    constantsAt ls i = .done (constants? (ls.drop i)) := by
  rw [constantsAt, constants?, typeAt_eq, List.tail_drop]
  split
  · cases htype : typeRef? (ls.drop (i + 1)) with
    | none => rfl
    | some p =>
      obtain ⟨type, rest⟩ := p
      have hsuffix := suffix_of_typeRef htype
      simp only [Option.map_some, Attempt.optional_ofOption, Attempt.done_bind, extentOf]
      rw [constantDeclaratorsFrom_eq, drop_behind hsuffix]
      rw [List.length_drop]
      omega
  · rfl

/-! ## Generic methods -/

/-- A lexeme of the name of a namespace. -/
def isNamespacePart (l : Lexeme) : Bool :=
  l.isIdent || l.isPunct "."

/-- The generic method that is declared at an index. -/
def genericMethodAt (ls : List Lexeme) (n : Nesting) (i : Nat) : Attempt GenericMethod :=
  match ls.drop i with
  | [] => .absent
  | l :: row =>
    let isHeading := l.isWord "namespace" ||
      (["class", "struct", "interface", "record"].any l.isWord && startsWithIdent row)
    if l.isIdent && !isHeading && startsWithPunct "<" row &&
        declaresAfter (ls.take i).reverse then do
      let stop? ← (argumentsStop ls (i + 1)).optional
      match n.typeName?, stop? with
      | some typeName, some stop =>
        if startsWithPunct "(" (ls.drop stop) then pure ⟨n.namespaceName, typeName, l.text⟩
        else .absent
      | _, _ => .absent
    else .absent

/-- What is open behind the lexeme with an index. -/
def nestingAt (ls : List Lexeme) (n : Nesting) (i : Nat) : Attempt Nesting :=
  match ls.drop i with
  | [] => pure n
  | l :: row =>
    if l.isWord "namespace" then do
      let name ← run isNamespacePart ls (i + 1)
      pure <|
        if startsWithPunct ";" (row.drop name.length) then
          { n with fileNamespace := some (joined name) }
        else { n with announced := some (.namespaceBody (joined name)) }
    else pure (n.after (l :: row))

/-- The generic methods at `count` places from an index on. -/
def genericMethodsFrom (ls : List Lexeme) (n : Nesting) (i : Nat) :
    (count : Nat) → Attempt (List GenericMethod)
  | 0 => pure []
  | count + 1 => do
    let found ← (genericMethodAt ls n i).toList
    let n ← nestingAt ls n i
    let more ← genericMethodsFrom ls n (i + 1) count
    pure (found ++ more)

theorem genericMethodAt_eq (ls : List Lexeme) (n : Nesting) (i : Nat) :
    genericMethodAt ls n i = ofOption (genericMethod? n (ls.take i).reverse (ls.drop i)) := by
  rw [genericMethodAt, genericMethod?.eq_def]
  cases hrow : ls.drop i with
  | nil => rfl
  | cons l row =>
    have htail : ls.drop (i + 1) = row := drop_succ_of_eq_cons hrow
    dsimp only
    rw [argumentsStop_eq, htail]
    split
    · cases n.typeName? with
      | none => cases typeArguments? row <;> rfl
      | some typeName =>
        cases harguments : typeArguments? row with
        | none => rfl
        | some p =>
          obtain ⟨arguments, rest⟩ := p
          have hsuffix : rest <:+ ls.drop (i + 1) := by
            rw [htail]
            exact eq_append_of_typeArguments harguments ▸ List.suffix_append _ _
          simp only [Option.map_some, Attempt.optional_ofOption, Attempt.done_bind,
            drop_behind hsuffix]
          split <;> rfl
    · rfl

theorem nestingAt_eq (ls : List Lexeme) (n : Nesting) (i : Nat) :
    nestingAt ls n i = .done (n.after (ls.drop i)) := by
  rw [nestingAt, run_eq_done]
  cases hrow : ls.drop i with
  | nil => rfl
  | cons l row =>
    have htail : ls.drop (i + 1) = row := drop_succ_of_eq_cons hrow
    dsimp only
    split
    · rename_i hword
      have hpunct (p : String) : l.isPunct p = false := by
        simp only [Lexeme.isWord, Bool.and_eq_true, decide_eq_true_eq] at hword
        simp [Lexeme.isPunct, hword.1]
      have hrest : row.drop (row.takeWhile isNamespacePart).length =
          row.dropWhile isNamespacePart := by
        have hsplit := congrArg (List.drop (row.takeWhile isNamespacePart).length)
          (@List.takeWhile_append_dropWhile _ isNamespacePart row)
        rwa [List.drop_left, eq_comm] at hsplit
      rw [Attempt.done_bind, htail, hrest, Nesting.after.eq_def]
      simp only [hpunct, hword, if_true, Bool.false_eq_true, if_false]
      rfl
    · rfl

/-- Finding generic methods does not fail. -/
theorem genericMethodsFrom_eq {ls : List Lexeme} {i count : Nat} (hcount : i + count = ls.length)
    (n : Nesting) :
    genericMethodsFrom ls n i count =
      .done (ZeroAlloc.CSharp.genericMethodsFrom n (ls.take i).reverse (ls.drop i)) := by
  induction count generalizing i n with
  | zero =>
    rw [List.drop_eq_nil_of_le (by omega)]
    rfl
  | succ count ih =>
    have hi : i < ls.length := by omega
    rw [genericMethodsFrom, genericMethodAt_eq, Attempt.toList_ofOption, Attempt.done_bind,
      nestingAt_eq, Attempt.done_bind, ih (by omega), Attempt.done_bind,
      List.drop_eq_getElem_cons hi, ZeroAlloc.CSharp.genericMethodsFrom, ← reverse_take_succ hi]
    rfl

end ZeroAlloc.Indexed.CSharp

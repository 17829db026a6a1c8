import ZeroAlloc.CSharp.Creation
import ZeroAlloc.Proofs.CSharp.Extent
import ZeroAlloc.Proofs.Indexed.CSharp.TypeRef
import ZeroAlloc.Proofs.Indexed.Sites
set_option autoImplicit false

/-! # Array creation in C# by indices

The recognisers of C# with the place as an index. None of them fails, and each finds what the row
from the place on gives, with its span. -/

namespace ZeroAlloc.Indexed.CSharp

open Attempt (ofOption)
open ZeroAlloc.CSharp
open Indexed.Tree

/-! ## Creation expressions -/

/-- `new[] { … }` with its word `new` at an index. -/
def inferredAt (t : Tree) (i : Nat) : Attempt PlacedSite := do
  let close ← matchingClose .squares t.row (i + 1)
  let level ← levelBetween t.row (i + 1) close
  if level.hasSizes || !startsWithPunct "\x7b" (t.row.drop (close + 1)) then .absent
  else do
    let last ← matchingClose .braces t.row (close + 1)
    let span ← t.tokenSpan i last
    let initializer ← t.initializer (close + 1) last
    pure {
      span
      origin := .explicit
      inAttribute := false
      element := .inferred
      levels := [level]
      initializer := some initializer
      malformed := false }

/-- The last index of an array creation whose type ends at an index, and its initializer list. -/
def creationEnd (t : Tree) (stop : Nat) : Attempt (Nat × Option PlacedInitializer) := do
  let last ← decrement stop
  if startsWithPunct "\x7b" (t.row.drop stop) then do
    let close ← matchingClose .braces t.row stop
    let initializer ← t.initializer stop close
    pure (close, some initializer)
  else pure (last, none)

/-- `new T[n]` with its word `new` at an index. -/
def typedAt (t : Tree) (i : Nat) : Attempt PlacedSite := do
  let type ← typeAt t.row (i + 1)
  if type.levels.isEmpty then .absent
  else do
    let (last, initializer) ← creationEnd t type.stop
    let element ← type.element t.row
    let inner ← innerLevels type.levels
    t.writtenSite .explicit i last element type.levels initializer (inner.any ArrayLevel.hasSizes)

/-- The creation expression at an index. -/
def creationAt (t : Tree) (i : Nat) : Attempt PlacedSite :=
  match t.row.drop i with
  | [] => .absent
  | l :: row =>
    if l.isWord "new" then if startsWithPunct "[" row then inferredAt t i else typedAt t i
    else .absent

variable {t : Tree}

/-- A tree without line breaks, as the lexis of C# gives. -/
def IsPlain (t : Tree) : Prop :=
  ∀ l ∈ t.row, l.isNewline = false

theorem IsPlain.withoutNewlines_of_group (hplain : IsPlain t) {b : BracketPair} {opening : Nat}
    {inside rest : List Lexeme} (h : b.group? (t.row.drop opening) = some (inside, rest)) :
    withoutNewlines inside = inside := by
  obtain ⟨o, c, _, _, hdrop⟩ := BracketPair.eq_append_of_group h
  refine List.filter_eq_self.2 fun l hl => ?_
  have hmem : l ∈ t.row := List.mem_of_mem_drop (by rw [hdrop]; simp [hl])
  rw [hplain l hmem]
  rfl

theorem inferredAt_eq (ht : t.IsTiled) (hplain : IsPlain t) {i : Nat}
    (hopen : startsWithPunct "[" (t.row.drop (i + 1)) = true) :
    inferredAt t i =
      ofOption ((inferredCreation? (t.row.drop (i + 1))).map fun s => t.place (s.shift i)) := by
  rw [inferredAt, matchingClose_eq hopen, inferredCreation?]
  cases hsquares : BracketPair.squares.group? (t.row.drop (i + 1)) with
  | none => rfl
  | some p =>
    obtain ⟨inside, rest⟩ := p
    obtain ⟨hclose, hinside, hrest⟩ := between_of_group hsquares
    have hdrop : t.row.drop (i + 1 + inside.length + 1 + 1) = rest := by
      rw [hrest, drop_behind (BracketPair.suffix_of_group hsquares)]
    simp only [Option.map_some, Option.bind_some, Attempt.ofOption_some, Attempt.done_bind,
      levelBetween_eq_done (show i + 1 < i + 1 + inside.length + 1 by omega)
        (Nat.le_of_lt hclose), hinside, hdrop]
    by_cases hsizes : (ArrayLevel.ofContents inside).hasSizes = true
    · rw [if_pos (by simp [hsizes]), if_pos hsizes]
      rfl
    · rw [if_neg hsizes]
      by_cases hbrace : startsWithPunct "\x7b" rest = true
      · rw [if_neg (by simp [hsizes, hbrace]), matchingClose_eq (by rw [hdrop]; exact hbrace),
          hdrop]
        cases hbraces : BracketPair.braces.group? rest with
        | none => rfl
        | some q =>
          obtain ⟨contents, after⟩ := q
          rw [← hdrop] at hbraces
          obtain ⟨hlast, _, _⟩ := between_of_group hbraces
          simp only [Option.map_some, Attempt.ofOption_some, Attempt.done_bind]
          rw [tokenSpan_eq_done ht (by omega) hlast, Attempt.done_bind,
            initializer_of_group ht hbraces, Attempt.done_bind,
            hplain.withoutNewlines_of_group hbraces]
          have hopening : i + 1 + inside.length + 1 + 1 = inside.length + 3 + i := by omega
          have hend : inside.length + 3 + i + contents.length + 1 =
            inside.length + 3 + contents.length + 1 + i := by omega
          rw [hopening, hend]
          simp [place, placeOrigin, placeInitializer, Site.shift, Site.levels]
      · rw [if_pos (by simp [hbrace]), group_eq_none (Bool.eq_false_iff.2 hbrace)]
        rfl

theorem creationEnd_eq (ht : t.IsTiled) (hplain : IsPlain t) {stop : Nat} (hpos : 0 < stop)
    {rest : List Lexeme} (hrest : t.row.drop stop = rest) :
    creationEnd t stop = ofOption
      (if startsWithPunct "\x7b" rest then
        (BracketPair.braces.group? rest).map fun p =>
          (stop + p.1.length + 1, some ⟨t.spanOf stop (stop + p.1.length + 1), p.1⟩)
      else some (stop - 1, none)) := by
  obtain ⟨last, rfl⟩ : ∃ last, stop = last + 1 := Nat.exists_eq_succ_of_ne_zero (by omega)
  rw [creationEnd, decrement_succ, Attempt.done_bind, hrest]
  split
  · rename_i hbrace
    rw [matchingClose_eq (by rw [hrest]; exact hbrace), hrest]
    cases hbraces : BracketPair.braces.group? rest with
    | none => rfl
    | some p =>
      rw [← hrest] at hbraces
      simp only [Option.map_some, Attempt.ofOption_some, Attempt.done_bind]
      rw [initializer_of_group ht hbraces, hplain.withoutNewlines_of_group hbraces]
      rfl
  · rfl

theorem typedAt_eq (ht : t.IsTiled) (hplain : IsPlain t) {i : Nat} (hi : i < t.row.length) :
    typedAt t i =
      ofOption ((typedCreation? (t.row.drop i)).map fun s => t.place (s.shift i)) := by
  have htail : (t.row.drop i).tail = t.row.drop (i + 1) := List.tail_drop
  rw [typedAt, typedCreation?, typeAt_eq, htail]
  cases htype : typeRef? (t.row.drop (i + 1)) with
  | none => rfl
  | some p =>
    have helement := element_extentOf htype
    obtain ⟨⟨parts, isPointer, levels⟩, rest⟩ := p
    have hsuffix := suffix_of_typeRef htype
    simp only [Option.map_some, Option.bind_some, Attempt.ofOption_some, Attempt.done_bind,
      helement]
    cases levels with
    | nil => rfl
    | cons allocated inner =>
      have hpos : 0 < behind t.row (i + 1) rest := by
        rw [behind]
        omega
      simp only [extentOf, List.isEmpty_cons, Bool.false_eq_true, if_false,
        creationEnd_eq ht hplain hpos (drop_behind hsuffix)]
      split
      · cases hbraces : BracketPair.braces.group? rest with
        | none => rfl
        | some q =>
          simp only [Option.map_some, Attempt.ofOption_some, Attempt.done_bind, innerLevels]
          exact writtenSite_group ht hi hsuffix hbraces _ _ _ _ _
      · simp only [Option.map_some, Attempt.ofOption_some, Attempt.done_bind, innerLevels]
        exact writtenSite_type ht hi hsuffix _ _ _ _

/-- Finding creation expressions does not fail. -/
theorem creationAt_eq (ht : t.IsTiled) (hplain : IsPlain t) {i : Nat} (hi : i < t.row.length) :
    creationAt t i = ofOption ((creation? (t.row.drop i)).map fun s => t.place (s.shift i)) := by
  rw [creationAt, creation?.eq_def]
  cases hrow : t.row.drop i with
  | nil => rfl
  | cons l row =>
    have htail : t.row.drop (i + 1) = row := drop_succ_of_eq_cons hrow
    dsimp only
    split
    · split
      · rename_i hopen
        rw [← htail] at hopen ⊢
        exact inferredAt_eq ht hplain hopen
      · rw [← hrow]
        exact typedAt_eq ht hplain hi
    · rfl

/-! ## Declarations with initializer lists -/

/-- The index of the bracket that closes the element list at an index. -/
def elementClose (ls : List Lexeme) (opening : Nat) : Attempt Nat :=
  if startsWithPunct "[" (ls.drop opening) then matchingClose .squares ls opening
  else if startsWithPunct "\x7b" (ls.drop opening) then matchingClose .braces ls opening
  else .absent

/-- The initializer lists of the declarators at an index. -/
def declaratorsFrom (t : Tree) (element : ElementType) (levels : List ArrayLevel) :
    (fuel position : Nat) → Attempt (List PlacedSite)
  | 0, _ => .fault .stuck
  | fuel + 1, position =>
    match t.row.drop position with
    | name :: mark :: _ =>
      if !name.isIdent then pure []
      else if mark.isPunct "=" then do
        let close? ← (elementClose t.row (position + 2)).optional
        match close? with
        | none => pure []
        | some close => do
          let site ← t.listSite element levels (position + 2) close
          let more ←
            if startsWithPunct "," (t.row.drop (close + 1)) then
              declaratorsFrom t element levels fuel (close + 2)
            else pure []
          pure (site :: more)
      else if mark.isPunct "," then declaratorsFrom t element levels fuel (position + 2)
      else pure []
    | _ => pure []

/-- The initializer lists of the declaration at an index. -/
def declarationsAt (t : Tree) (i : Nat) : Attempt (List PlacedSite) :=
  if startsWithText [".", "new", ":"] (t.row.take i).reverse then pure []
  else do
    let type? ← (typeAt t.row i).optional
    match type? with
    | none => pure []
    | some type =>
      if type.levels.isEmpty || type.levels.any ArrayLevel.hasSizes then pure []
      else do
        let element ← type.element t.row
        let isMarked := startsWithPunct "?" (t.row.drop type.stop) &&
          startsWithIdent (t.row.drop (type.stop + 1))
        declaratorsFrom t element type.levels (t.row.length + 1)
          (if isMarked then type.stop + 1 else type.stop)

theorem elementClose_eq (ls : List Lexeme) (opening : Nat) :
    elementClose ls opening =
      ofOption ((elementList? (ls.drop opening)).map fun p => opening + p.1.length + 1) := by
  rw [elementClose, elementList?]
  split
  · rename_i hopen
    exact matchingClose_eq hopen
  · split
    · rename_i hopen
      exact matchingClose_eq hopen
    · rename_i hopen
      rw [group_eq_none (Bool.eq_false_iff.2 hopen)]
      rfl

/-- Reading declarators does not fail. -/
theorem declaratorsFrom_eq (ht : t.IsTiled) (hplain : IsPlain t) (element : ElementType)
    (allocated : ArrayLevel) (inner : List ArrayLevel) {i position index fuel : Nat}
    (hindex : i + position = index) (hfuel : (t.row.drop index).length < fuel) :
    declaratorsFrom t element (allocated :: inner) fuel index =
      .done ((declaratorSites element allocated inner position (t.row.drop index)).map
        fun s => t.place (s.shift i)) := by
  induction fuel generalizing position index with
  | zero => omega
  | succ fuel ih =>
    rw [declaratorsFrom]
    match hls : t.row.drop index with
    | [] =>
      rw [declaratorSites]
      · rfl
      · simp
    | [_] =>
      rw [declaratorSites]
      · rfl
      · simp
    | name :: mark :: value =>
      have hvalue : t.row.drop (index + 2) = value := by
        rw [← List.drop_drop, hls]
        rfl
      rw [hls] at hfuel
      simp only [List.length_cons] at hfuel
      dsimp only
      rw [declaratorSites_cons]
      split
      · rfl
      · split
        · rw [elementClose_eq, hvalue]
          cases hlist : elementList? value with
          | none => rfl
          | some p =>
            obtain ⟨contents, rest⟩ := p
            obtain ⟨b, -, hgroup⟩ := exists_group_of_elementList hlist
            have hshort := BracketPair.length_lt_of_group hgroup
            rw [← hvalue] at hgroup
            obtain ⟨_, _, hrest⟩ := between_of_group hgroup
            have hdrop : t.row.drop (index + 2 + contents.length + 1 + 1) = rest := by
              rw [hrest, drop_behind (BracketPair.suffix_of_group hgroup)]
            have htail : t.row.drop (index + 2 + contents.length + 1 + 2) = rest.tail := by
              rw [← hdrop, List.tail_drop]
            have hmore := @ih (position + 2 + contents.length + 1 + 2)
              (index + 2 + contents.length + 1 + 2) (by omega)
              (by rw [htail, List.length_tail]; omega)
            have hstart : i + (position + 2) = index + 2 := by omega
            simp only [Option.map_some, Attempt.ofOption_some, Attempt.optional, Attempt.done_bind]
            rw [listSite_place ht hstart element allocated inner hgroup, Attempt.done_bind, hdrop,
              hplain.withoutNewlines_of_group hgroup, hmore, htail]
            split <;> rfl
        · split
          · rw [← hvalue]
            exact ih (by omega) (by rw [hvalue]; omega)
          · rfl

theorem skipNullableMark_suffix (rest : List Lexeme) : skipNullableMark rest <:+ rest := by
  rw [skipNullableMark]
  split
  · exact List.tail_suffix rest
  · exact List.suffix_refl rest

/-- Passing over the nullable mark of an array. -/
theorem behind_skipNullableMark {ls rest : List Lexeme} {i : Nat} (h : rest <:+ ls.drop i) :
    (if startsWithPunct "?" rest && startsWithIdent (ls.drop (behind ls i rest + 1)) then
      behind ls i rest + 1 else behind ls i rest) = behind ls i (skipNullableMark rest) := by
  have htail : ls.drop (behind ls i rest + 1) = rest.tail := by
    rw [← List.tail_drop, drop_behind h]
  rw [htail, skipNullableMark]
  cases rest with
  | nil => rfl
  | cons mark rest =>
    split
    · exact behind_cons h
    · rfl

/-- Finding declarations does not fail. -/
theorem declarationsAt_eq (ht : t.IsTiled) (hplain : IsPlain t) (i : Nat) :
    declarationsAt t i =
      .done ((declarationSites (t.row.take i).reverse (t.row.drop i)).map fun s =>
        t.place (s.shift i)) := by
  rw [declarationsAt, declarationSites, typeAt_eq]
  split
  · rfl
  · cases htype : typeRef? (t.row.drop i) with
    | none => rfl
    | some p =>
      have helement := element_extentOf htype
      obtain ⟨⟨parts, isPointer, levels⟩, rest⟩ := p
      have hsuffix := suffix_of_typeRef htype
      simp only [Option.map_some, Attempt.optional_ofOption, Attempt.done_bind, helement]
      simp only [extentOf, drop_behind hsuffix]
      cases levels with
      | nil => rfl
      | cons allocated inner =>
        rw [List.isEmpty_cons, Bool.false_or]
        split
        · rfl
        · have hdeclarators := (skipNullableMark_suffix rest).trans hsuffix
          have hindex : i + ((t.row.drop i).length - (skipNullableMark rest).length) =
            behind t.row i (skipNullableMark rest) := rfl
          rw [behind_skipNullableMark hsuffix,
            declaratorsFrom_eq ht hplain _ allocated inner hindex, drop_behind hdeclarators]
          rw [drop_behind hdeclarators]
          have := hdeclarators.length_le
          rw [List.length_drop] at this
          omega

/-! ## Parameter arrays -/

/-- The parameter array that is declared at an index. -/
def paramArrayAt (ls : List Lexeme) (i : Nat) : Attempt DeclaredArray :=
  match ls.drop i with
  | [] => .absent
  | l :: _ =>
    if l.isWord "params" then do
      let opening ← enclosingOpen .parens ls i
      match (ls.take opening).reverse with
      | [] => .absent
      | method :: _ =>
        if method.isIdent then do
          let type ← typeAt ls (i + 1)
          if type.levels.isEmpty then .absent
          else do
            let element ← type.element ls
            let inside ← piece ls (opening + 1) i
            pure ⟨method.text, commasBefore 0 inside, element, type.levels⟩
        else .absent
    else .absent

/-- Finding parameter arrays does not fail. -/
theorem paramArrayAt_eq (ls : List Lexeme) (i : Nat) :
    paramArrayAt ls i =
      ofOption ((paramArray? (ls.take i).reverse (ls.drop i)).map .of) := by
  rw [paramArrayAt, paramArray?.eq_def]
  cases hrow : ls.drop i with
  | nil => rfl
  | cons l row =>
    have htail : ls.drop (i + 1) = row := drop_succ_of_eq_cons hrow
    dsimp only
    split
    · rw [enclosingOpen_eq]
      cases henclosing : BracketPair.parens.enclosing? (ls.take i).reverse with
      | none => rfl
      | some p =>
        obtain ⟨inside, outside⟩ := p
        obtain ⟨hlt, houtside, hinside⟩ := between_of_enclosing henclosing
        simp only [Option.map_some, Attempt.ofOption_some, Attempt.done_bind, houtside,
          @piece_eq_done ls _ _ hlt, hinside]
        cases outside with
        | nil => rfl
        | cons method more =>
          dsimp only
          split
          · rw [typeAt_eq, htail]
            cases htype : typeRef? row with
            | none => rfl
            | some p =>
              have helement := @element_extentOf ls (i + 1) _ (by rw [htail]; exact htype)
              obtain ⟨⟨parts, isPointer, levels⟩, rest⟩ := p
              simp only [Option.map_some, Attempt.ofOption_some, Attempt.done_bind, helement]
              simp only [extentOf]
              cases levels <;> rfl
          · rfl
    · rfl

/-! ## Attributes -/

/-- Whether the bracket with the index `previous` stands directly before an index. -/
def adjoinsAt (ls : List Lexeme) (previous : Option Nat) (i : Nat) : Attempt Bool :=
  if startsWithText ["]"] (ls.take i).reverse then do
    let before ← decrement i
    pure (previous == some before)
  else pure false

/-- The index of the bracket that ends the attribute section at an index. `previous` is the index of
the bracket that ends the section before. -/
def attributeClose (ls : List Lexeme) (previous : Option Nat) (i : Nat) : Attempt Nat :=
  if startsWithPunct "[" (ls.drop i) && startsWithIdent (ls.drop (i + 1)) &&
      !startsWithText ["new"] (ls.drop (i + 1)) then do
    let close ← matchingClose .squares ls i
    let adjoins ← adjoinsAt ls previous i
    if isAttributeSection (ls.take i).reverse (ls.drop (close + 1)) adjoins then pure close
    else .absent
  else .absent

/-- The spans of the attribute sections at `count` places from an index on. -/
def attributeSpansFrom (t : Tree) (previous : Option Nat) (i : Nat) :
    (count : Nat) → Attempt (List Text.Span)
  | 0 => pure []
  | count + 1 => do
    let close? ← (attributeClose t.row previous i).optional
    match close? with
    | none => attributeSpansFrom t previous (i + 1) count
    | some close =>
      let span ← t.tokenSpan i close
      let more ← attributeSpansFrom t (some close) (i + 1) count
      pure (span :: more)

theorem adjoinsAt_eq (ls : List Lexeme) (previous : Option Nat) (i : Nat) :
    adjoinsAt ls previous i =
      .done (startsWithText ["]"] (ls.take i).reverse && previous.any (· + 1 == i)) := by
  rw [adjoinsAt]
  split
  · rename_i hbefore
    cases i with
    | zero => cases hbefore
    | succ i =>
      rw [decrement_succ, Attempt.done_bind, hbefore, Bool.true_and]
      cases previous <;> simp
  · rename_i hbefore
    rw [Bool.eq_false_iff.2 hbefore]
    rfl

/-- Whether a section adjoins matters behind a square bracket only. -/
theorem isAttributeSection_and (before after : List Lexeme) (adjoins : Bool) :
    isAttributeSection before after (startsWithText ["]"] before && adjoins) =
      isAttributeSection before after adjoins := by
  cases before with
  | nil => rfl
  | cons l before =>
    by_cases hl : l.text = "]"
    · simp [isAttributeSection, startsWithText, hl]
    · simp [isAttributeSection, hl]

theorem attributeClose_eq (ls : List Lexeme) (previous : Option Nat) (i : Nat) :
    attributeClose ls previous i =
      ofOption ((attributeSection? (ls.take i).reverse (ls.drop i)
        (previous.any (· + 1 == i))).map fun width => i + width + 1) := by
  rw [attributeClose, attributeSection?, List.tail_drop]
  by_cases hopen : startsWithPunct "[" (ls.drop i) = true
  · rw [hopen, Bool.true_and]
    split
    · rw [matchingClose_eq hopen, adjoinsAt_eq]
      cases hgroup : BracketPair.squares.group? (ls.drop i) with
      | none => rfl
      | some p =>
        obtain ⟨inside, rest⟩ := p
        obtain ⟨_, _, hrest⟩ := between_of_group hgroup
        simp only [Option.map_some, Attempt.ofOption_some, Attempt.done_bind]
        rw [hrest, drop_behind (BracketPair.suffix_of_group hgroup), isAttributeSection_and]
        split <;> rfl
    · rfl
  · rw [Bool.eq_false_iff.2 hopen, Bool.false_and, Bool.false_and, if_neg Bool.false_ne_true,
      group_eq_none (Bool.eq_false_iff.2 hopen)]
    split <;> rfl

/-- An attribute section ends at a token. -/
theorem lt_length_of_attributeSection {ls : List Lexeme} {before : List Lexeme} {adjoins : Bool}
    {i width : Nat} (h : attributeSection? before (ls.drop i) adjoins = some width) :
    i + width + 1 < ls.length := by
  rw [attributeSection?] at h
  split at h
  · split at h
    · rename_i hgroup
      split at h
      · cases h
        exact (between_of_group hgroup).1
      · cases h
    · cases h
  · cases h

/-- Finding attribute sections does not fail. -/
theorem attributeSpansFrom_eq (ht : t.IsTiled) {i count : Nat} (hcount : i + count = t.row.length)
    (previous : Option Nat) :
    attributeSpansFrom t previous i count =
      .done ((attributeSections (t.row.take i).reverse i previous (t.row.drop i)).map fun p =>
        t.spanOf p.1 p.2) := by
  induction count generalizing i previous with
  | zero =>
    rw [List.drop_eq_nil_of_le (by omega)]
    rfl
  | succ count ih =>
    have hi : i < t.row.length := by omega
    have hnext (previous : Option Nat) := @ih (i + 1) (by omega) previous
    rw [attributeSpansFrom, attributeClose_eq, List.drop_eq_getElem_cons hi, attributeSections,
      ← List.drop_eq_getElem_cons hi, ← reverse_take_succ hi]
    cases hsection : attributeSection? (t.row.take i).reverse (t.row.drop i)
      (previous.any (· + 1 == i)) with
    | none => exact hnext previous
    | some width =>
      simp only [Option.map_some, Attempt.ofOption_some, Attempt.optional, Attempt.done_bind]
      rw [tokenSpan_eq_done ht (by omega) (lt_length_of_attributeSection hsection), hnext]
      rfl

/-- Attribute sections are ranges of tokens. -/
theorem holds_of_mem_attributeSections {i count : Nat} (hcount : i + count = t.row.length)
    {before : List Lexeme} {previous : Option Nat} {p : Nat × Nat}
    (h : p ∈ attributeSections before i previous (t.row.drop i)) : t.Holds p := by
  induction count generalizing i before previous with
  | zero =>
    rw [List.drop_eq_nil_of_le (by omega)] at h
    cases h
  | succ count ih =>
    have hi : i < t.row.length := by omega
    rw [List.drop_eq_getElem_cons hi, attributeSections, ← List.drop_eq_getElem_cons hi] at h
    split at h
    · rename_i width hsection
      rcases List.mem_cons.1 h with rfl | h
      · exact ⟨by dsimp only; omega, lt_length_of_attributeSection hsection⟩
      · exact ih (by omega) h
    · exact ih (by omega) h

/-! ## Sites -/

/-- How calls are found in C#. -/
def callRules : CallRules where
  canCallAfter := canCallAfter
  declares l := l.text == "params"
  sameName name other := name == other

/-- The sites at an index. -/
def sitesAt (t : Tree) (arrays : List DeclaredArray) (i : Nat) : Attempt (List PlacedSite) := do
  let created ← (creationAt t i).toList
  let declared ← declarationsAt t i
  let called ← (t.callAt callRules arrays i).toList
  pure (created ++ declared ++ called)

/-- The sites of a file. -/
def sites (t : Tree) : Attempt (List PlacedSite) := do
  let arrays ← collect (fun i => (paramArrayAt t.row i).toList) 0 t.row.length
  let found ← collect (sitesAt t arrays) 0 t.row.length
  let sections ← attributeSpansFrom t none 0 t.row.length
  pure (arrange sections found)

theorem callRead_eq (arrays : List ParamArray) (before row : List Lexeme) :
    callRead? callRules arrays before row = paramArrayCall? arrays before row := by
  cases row with
  | nil => rfl
  | cons l row =>
    rw [callRead?, paramArrayCall?, callOf?]
    cases BracketPair.parens.group? row <;> rfl

/-- Finding sites does not fail. -/
theorem sites_eq_done (ht : t.IsTiled) (hplain : IsPlain t) :
    sites t = .done ((ZeroAlloc.CSharp.sites t.row).map t.place) := by
  have harrays : collect (fun i => (paramArrayAt t.row i).toList) 0 t.row.length = .done
      ((atEachPlace (fun before here => (paramArray? before here).toList) [] t.row).map
        DeclaredArray.of) := by
    refine collect_eq_done fun i _ => ?_
    rw [paramArrayAt_eq, Attempt.toList_ofOption, Option.toList_map]
  have hfound (arrays : List ParamArray) :
      collect (sitesAt t (arrays.map .of)) 0 t.row.length = .done
        ((atEachPlace (fun before here =>
          ((creation? here).toList ++ declarationSites before here ++
            (paramArrayCall? arrays before here).toList).map fun s => s.shift before.length) []
              t.row).map t.place) := by
    refine collect_eq_done fun i hi => ?_
    have hlength := length_reverse_take (Nat.le_of_lt hi)
    simp only [sitesAt, creationAt_eq ht hplain hi, declarationsAt_eq ht hplain, callAt_eq ht,
      callRead_eq, Attempt.toList_ofOption, Attempt.done_bind, Attempt.pure_eq_done, hlength,
      List.map_append, List.map_map, Option.toList_map]
    rfl
  have hsections := attributeSpansFrom_eq ht (Nat.zero_add t.row.length) none
  rw [List.take_zero, List.reverse_nil, List.drop_zero] at hsections
  rw [sites, harrays, Attempt.done_bind, hfound, Attempt.done_bind, hsections, Attempt.done_bind,
    arrange_place ht (fun s hs => liesIn_of_mem_sites hs)]
  · rfl
  · intro p hp
    exact @holds_of_mem_attributeSections t 0 t.row.length (Nat.zero_add _) _ _ p hp

end ZeroAlloc.Indexed.CSharp

import ZeroAlloc.Proofs.Indexed.Sites
import ZeroAlloc.Proofs.Indexed.VisualBasic.TypeRef
import ZeroAlloc.Proofs.VisualBasic.Extent
set_option autoImplicit false

/-! # Array creation in Visual Basic by indices

The recognisers of Visual Basic with the place as an index. None of them fails, and each finds what
the row from the place on gives, with its span. -/

namespace ZeroAlloc.Indexed.VisualBasic

open Attempt (ofOption)
open ZeroAlloc.VisualBasic
open Indexed.Tree

/-! ## Creation expressions -/

/-- The creation expression at an index. -/
def creationAt (t : Tree) (i : Nat) : Attempt PlacedSite :=
  if startsWithKeyword "new" (t.row.drop i) then do
    let type ← typeAt t.row (i + 1)
    if type.levels.isEmpty || !startsWithPunct "\x7b" (t.row.drop type.stop) then .absent
    else do
      let close ← matchingClose .braces t.row type.stop
      let element ← type.element t.row
      let inner ← innerLevels type.levels
      let initializer ← t.initializer type.stop close
      t.writtenSite .explicit i close element type.levels (some initializer)
        (inner.any ArrayLevel.hasSizes)
  else .absent

variable {t : Tree}

/-- Finding creation expressions does not fail. -/
theorem creationAt_eq (ht : t.IsTiled) {i : Nat} (hi : i < t.row.length) :
    creationAt t i = ofOption ((creation? (t.row.drop i)).map fun s => t.place (s.shift i)) := by
  rw [creationAt, creation?, typeAt_eq, List.tail_drop]
  split
  · cases htype : typeRef? (t.row.drop (i + 1)) with
    | none => rfl
    | some p =>
      have helement := element_extentOf htype
      obtain ⟨⟨parts, levels⟩, rest⟩ := p
      have hsuffix := suffix_of_typeRef htype
      simp only [Option.map_some, Option.bind_some, Attempt.ofOption_some, Attempt.done_bind,
        helement]
      cases levels with
      | nil => rfl
      | cons allocated inner =>
        simp only [extentOf, List.isEmpty_cons, Bool.false_or, drop_behind hsuffix]
        by_cases hbrace : startsWithPunct "\x7b" rest = true
        · rw [if_neg (by simp [hbrace]), matchingClose_eq (by rwa [drop_behind hsuffix]),
            drop_behind hsuffix]
          cases hbraces : BracketPair.braces.group? rest with
          | none => rfl
          | some q =>
            simp only [Option.map_some, Attempt.ofOption_some, Attempt.done_bind, innerLevels]
            rw [initializer_of_group ht (by rwa [drop_behind hsuffix]), Attempt.done_bind]
            exact writtenSite_group ht hi hsuffix hbraces _ _ _ _ _
        · rw [if_pos (by simp [hbrace]), group_eq_none (Bool.eq_false_iff.2 hbrace)]
          rfl
  · rfl

/-! ## Declarations with initializer lists -/

/-- The bracketed lists that end at an index, the last one first, and the index at which they
start. -/
def levelsBefore (ls : List Lexeme) : (fuel stop : Nat) → Attempt (List ArrayLevel × Nat)
  | 0, _ => .fault .stuck
  | fuel + 1, stop =>
    if startsWithPunct ")" (ls.take stop).reverse then do
      let close ← decrement stop
      let opening ← enclosingOpen .parens ls close
      let level ← levelBetween ls opening close
      let (levels, start) ← levelsBefore ls fuel opening
      pure (level :: levels, start)
    else pure ([], stop)

/-- The bounds that the declared name before an index carries. -/
def nameLevels (ls : List Lexeme) (stop : Nat) : Attempt (List ArrayLevel) := do
  let (levels, start) ← levelsBefore ls (stop + 1) stop
  if levels.isEmpty then pure []
  else
    match (ls.take start).reverse with
    | [] => .absent
    | name :: outside =>
      if !name.isIdent then .absent
      else if outside.head?.any fun l => memberWords.contains (Text.lowerAscii l.text) then pure []
      else pure levels.reverse

/-- The initializer list of the declaration whose word `As` has the index. -/
def declarationAt (t : Tree) (i : Nat) : Attempt PlacedSite :=
  if startsWithKeyword "as" (t.row.drop i) && !startsWithKeyword "new" (t.row.drop (i + 1)) then do
    let type ← typeAt t.row (i + 1)
    let breaks := (t.row.drop (type.stop + 1)).takeWhile Lexeme.isNewline
    let opening := type.stop + 1 + breaks.length
    if startsWithPunct "=" (t.row.drop type.stop) &&
        startsWithPunct "\x7b" (t.row.drop opening) then do
      let nameLevels ← nameLevels t.row i
      let levels := nameLevels ++ type.levels
      if levels.isEmpty || levels.any ArrayLevel.hasSizes then .absent
      else do
        let close ← matchingClose .braces t.row opening
        let element ← type.element t.row
        t.listSite element levels opening close
    else .absent
  else .absent

theorem levelsBefore_eq {ls : List Lexeme} {fuel stop : Nat} (hfuel : stop < fuel)
    (hstop : stop ≤ ls.length) :
    levelsBefore ls fuel stop =
      ofOption ((levelsBefore? (ls.take stop).reverse).map fun p => (p.1, p.2.length)) := by
  induction fuel generalizing stop with
  | zero => omega
  | succ fuel ih =>
    rw [levelsBefore]
    cases stop with
    | zero => simp [levelsBefore?, startsWithPunct]
    | succ stop =>
      rw [reverse_take_succ hstop, levelsBefore?_cons]
      change (if ls[stop].isPunct ")" = true then _ else _) = _
      split
      · rw [decrement_succ, Attempt.done_bind, enclosingOpen_eq]
        cases henclosing : BracketPair.parens.enclosing? (ls.take stop).reverse with
        | none => rfl
        | some p =>
          obtain ⟨inside, outside⟩ := p
          obtain ⟨hlt, houtside, hinside⟩ := between_of_enclosing henclosing
          simp only [Option.map_some, Option.bind_some, Attempt.ofOption_some, Attempt.done_bind]
          rw [levelBetween_eq_done hlt (by omega), hinside, Attempt.done_bind,
            ih (by omega) (by omega), houtside]
          cases levelsBefore? outside <;> rfl
      · simp only [Option.map_some, Attempt.ofOption_some, List.length_cons, List.length_reverse,
          List.length_take]
        rw [Nat.min_eq_left (by omega)]
        rfl

theorem suffix_of_levelsBefore {before outside : List Lexeme} {levels : List ArrayLevel}
    (h : levelsBefore? before = some (levels, outside)) : outside <:+ before := by
  fun_induction levelsBefore? before generalizing levels with
  | case1 =>
    cases h
    exact List.suffix_refl _
  | case2 l ls hclose inside around henclosing ih =>
    obtain ⟨⟨inner, more⟩, hmore, he⟩ := Option.map_eq_some_iff.1 h
    cases he
    obtain ⟨⟨_, _⟩, huntil, he⟩ := Option.map_eq_some_iff.1 henclosing
    cases he
    obtain ⟨bracket, _, rfl⟩ := BracketPair.eq_append_of_untilClose huntil
    exact (ih hmore).trans (((List.suffix_cons bracket around).trans (List.suffix_append _ _)).trans
      (List.suffix_cons l _))
  | case3 => cases h
  | case4 =>
    cases h
    exact List.suffix_refl _

theorem nameLevels_eq {ls : List Lexeme} {stop : Nat} (hstop : stop ≤ ls.length) :
    nameLevels ls stop = ofOption (nameLevels? (ls.take stop).reverse) := by
  rw [nameLevels, nameLevels?, levelsBefore_eq (Nat.lt_succ_self stop) hstop]
  cases hlevels : levelsBefore? (ls.take stop).reverse with
  | none => rfl
  | some p =>
    obtain ⟨levels, outside⟩ := p
    have houtside := reverse_take_of_suffix (suffix_of_levelsBefore hlevels)
    simp only [Option.map_some, Option.bind_some, Attempt.ofOption_some, Attempt.done_bind,
      houtside]
    split
    · rfl
    · cases outside with
      | nil => rfl
      | cons name outside =>
        dsimp only
        split
        · rfl
        · split <;> rfl

/-- Placing the list behind the equals sign of a declaration does not fail. -/
theorem listSite_behind (ht : t.IsTiled) {i : Nat} {list contents rest : List Lexeme}
    (hlist : list <:+ t.row.drop (i + 1))
    (hgroup : BracketPair.braces.group? list = some (contents, rest)) (element : ElementType)
    (allocated : ArrayLevel) (inner : List ArrayLevel) :
    t.listSite element (allocated :: inner) (behind t.row (i + 1) list)
        (behind t.row (i + 1) list + contents.length + 1) =
      .done (t.place (Site.shift i
        { first := (t.row.drop i).length - list.length
          last := (t.row.drop i).length - rest.length - 1
          origin := .implicitInitializer
          inAttribute := false
          element := element.readWith contents
          allocated
          inner
          initializer := some ⟨(t.row.drop i).length - list.length, withoutNewlines contents⟩
          malformed := false })) := by
  obtain ⟨_, _, _, _, hcontents⟩ := BracketPair.eq_append_of_group hgroup
  have hrest := congrArg List.length hcontents
  simp only [List.cons_append, List.length_cons, List.length_append] at hrest
  have hlong := hlist.length_le
  rw [List.length_drop] at hlong
  have hopening : i + ((t.row.drop i).length - list.length) = behind t.row (i + 1) list := by
    rw [behind, List.length_drop, List.length_drop]
    omega
  have hlast : (t.row.drop i).length - rest.length - 1 =
      (t.row.drop i).length - list.length + contents.length + 1 := by
    rw [List.length_drop]
    omega
  rw [← drop_behind hlist] at hgroup
  rw [hlast]
  exact listSite_place ht hopening element allocated inner hgroup

/-- Finding declarations does not fail. -/
theorem declarationAt_eq (ht : t.IsTiled) {i : Nat} (hi : i < t.row.length) :
    declarationAt t i =
      ofOption ((declarationSite? (t.row.take i).reverse (t.row.drop i)).map fun s =>
        t.place (s.shift i)) := by
  rw [declarationAt, declarationSite?, typeAt_eq, List.tail_drop]
  split
  · cases htype : typeRef? (t.row.drop (i + 1)) with
    | none => rfl
    | some p =>
      have helement := element_extentOf htype
      obtain ⟨type, rest⟩ := p
      have hsuffix := suffix_of_typeRef htype
      simp only [Option.map_some, Attempt.ofOption_some, Attempt.done_bind, helement]
      simp only [extentOf, drop_behind hsuffix]
      cases rest with
      | nil => rfl
      | cons mark value =>
        have hvalue := (List.suffix_cons mark value).trans hsuffix
        have hbreaks := @List.takeWhile_append_dropWhile _ Lexeme.isNewline value
        simp only [behind_cons hsuffix, drop_behind hvalue, startsWithPunct_cons]
        generalize value.takeWhile Lexeme.isNewline = breaks at hbreaks ⊢
        generalize value.dropWhile Lexeme.isNewline = list at hbreaks ⊢
        subst hbreaks
        have hlist := (List.suffix_append breaks list).trans hvalue
        simp only [behind_append hvalue, drop_behind hlist]
        by_cases hguard : (mark.isPunct "=" && startsWithPunct "\x7b" list) = true
        · have hbrace := (Bool.and_eq_true_iff.1 hguard).2
          simp only [hguard, if_true, nameLevels_eq (Nat.le_of_lt hi)]
          cases nameLevels? (t.row.take i).reverse with
          | none => rfl
          | some nameLevels =>
            simp only [Attempt.ofOption_some, Attempt.done_bind]
            cases nameLevels ++ type.levels with
            | nil => rfl
            | cons allocated inner =>
              rw [List.isEmpty_cons, Bool.false_or,
                matchingClose_eq (by rw [drop_behind hlist]; exact hbrace), drop_behind hlist]
              cases hgroup : BracketPair.braces.group? list with
              | none => split <;> rfl
              | some q =>
                dsimp only
                split
                · rfl
                · exact listSite_behind ht hlist hgroup _ _ _
        · simp [hguard]
  · rfl

/-! ## Parameter arrays -/

/-- The levels of the parameter array whose declaration has an index, those on its name first, and
its element type. -/
def paramTypeAt (ls : List Lexeme) (i : Nat) : Attempt (List ArrayLevel × ElementType) := do
  let (nameLevels, stop) ← levelsFrom .parens (fun _ => true) ls (ls.length + 1) (i + 2)
  if startsWithKeyword "as" (ls.drop stop) then do
    let type ← typeAt ls (stop + 1)
    let element ← type.element ls
    pure (nameLevels ++ type.levels, element)
  else .absent

/-- The parameter array that is declared at an index. -/
def paramArrayAt (ls : List Lexeme) (i : Nat) : Attempt DeclaredArray :=
  if startsWithKeyword "paramarray" (ls.drop i) then do
    let opening ← enclosingOpen .parens ls i
    match (ls.take opening).reverse with
    | [] => .absent
    | method :: _ =>
      if method.isIdent then do
        let (levels, element) ← paramTypeAt ls i
        if levels.isEmpty then .absent
        else
          let inside ← piece ls (opening + 1) i
          let fixed := commasBefore 0 inside
          pure ⟨method.text, fixed, element, levels⟩
      else .absent
  else .absent

/-- The type of a parameter array, from its declaration on. -/
def paramType? (row : List Lexeme) : Option (List ArrayLevel × ElementType) :=
  (arrayLevels .parens (fun _ => true) (row.drop 2)).bind fun p =>
    if startsWithKeyword "as" p.2 then
      (typeRef? p.2.tail).map fun q => (p.1 ++ q.1.levels, q.1.element)
    else none

theorem paramTypeAt_eq (ls : List Lexeme) (i : Nat) :
    paramTypeAt ls i = ofOption (paramType? (ls.drop i)) := by
  rw [paramTypeAt, paramType?, List.drop_drop, levelsFrom_eq (by rw [List.length_drop]; omega)]
  cases hlevels : arrayLevels .parens (fun _ => true) (ls.drop (i + 2)) with
  | none => rfl
  | some p =>
    obtain ⟨nameLevels, rest⟩ := p
    have hsuffix := suffix_of_arrayLevels hlevels
    have htail : ls.drop (behind ls (i + 2) rest + 1) = rest.tail := by
      rw [← List.tail_drop, drop_behind hsuffix]
    simp only [Option.map_some, Option.bind_some, Attempt.ofOption_some, Attempt.done_bind,
      drop_behind hsuffix]
    split
    · rw [typeAt_eq, htail]
      cases htype : typeRef? rest.tail with
      | none => rfl
      | some q =>
        simp only [Option.map_some, Attempt.ofOption_some, Attempt.done_bind]
        rw [element_extentOf (by rw [htail]; exact htype)]
        rfl
    · rfl

/-- Finding parameter arrays does not fail. -/
theorem paramArrayAt_eq (ls : List Lexeme) (i : Nat) :
    paramArrayAt ls i =
      ofOption ((paramArray? (ls.take i).reverse (ls.drop i)).map .of) := by
  rw [paramArrayAt, paramArray?, enclosingOpen_eq]
  split
  · cases henclosing : BracketPair.parens.enclosing? (ls.take i).reverse with
    | none => rfl
    | some p =>
      obtain ⟨inside, outside⟩ := p
      obtain ⟨hlt, houtside, hinside⟩ := between_of_enclosing henclosing
      simp only [Option.map_some, Attempt.ofOption_some, Attempt.done_bind, houtside,
        @piece_eq_done ls _ _ hlt, hinside]
      cases outside with
      | nil => rfl
      | cons method more =>
        dsimp only
        split
        · rw [paramTypeAt_eq, paramType?]
          cases arrayLevels .parens (fun _ => true) ((ls.drop i).drop 2) with
          | none => rfl
          | some q =>
            obtain ⟨nameLevels, rest⟩ := q
            simp only [Option.bind_some]
            split
            · cases typeRef? rest.tail with
              | none => rfl
              | some r =>
                obtain ⟨type, after⟩ := r
                simp only [Option.map_some, Attempt.ofOption_some, Attempt.done_bind]
                cases nameLevels ++ type.levels <;> rfl
            · rfl
        · rfl
  · rfl

/-! ## Attributes -/

/-- The span of the attribute block at an index. -/
def attributeSpanAt (t : Tree) (i : Nat) : Attempt Text.Span :=
  let before := (t.row.take i).reverse
  if startsWithPunct "<" (t.row.drop i) && startsWithIdent (t.row.drop (i + 1)) then do
    let inside ← rowFrom t.row (i + 1)
    let (width, after) ← ofOption (attributeEnd? 0 inside)
    if startsStatementAfter before ||
        ((startsWithPunct "(" before || startsWithPunct "," before) && startsWithIdent after) then
      t.tokenSpan i (i + width + 1)
    else .absent
  else .absent

theorem width_lt_length_of_attributeEnd {depth width : Nat} {row rest : List Lexeme}
    (h : attributeEnd? depth row = some (width, rest)) : width < row.length := by
  induction row generalizing depth width with
  | nil => cases h
  | cons l row ih =>
    have hmore {depth : Nat} (h : (attributeEnd? depth row).map
        (fun p => (p.1 + 1, p.2)) = some (width, rest)) : width < (l :: row).length := by
      obtain ⟨⟨w, r⟩, hend, he⟩ := Option.map_eq_some_iff.1 h
      cases he
      exact Nat.succ_lt_succ (ih hend)
    rw [attributeEnd?] at h
    split at h
    · cases h
    · split at h
      · exact hmore h
      · split at h
        · exact hmore h
        · split at h
          · cases h
            exact Nat.zero_lt_succ _
          · exact hmore h

/-- An attribute block ends at a token. -/
theorem lt_length_of_attributeBlock {ls before : List Lexeme} {i width : Nat}
    (h : attributeBlock? before (ls.drop i) = some width) : i + width + 1 < ls.length := by
  rw [attributeBlock?] at h
  split at h
  · split at h
    · rename_i found after hend
      have hwidth := width_lt_length_of_attributeEnd hend
      rw [List.tail_drop, List.length_drop] at hwidth
      split at h
      · cases h
        omega
      · cases h
    · cases h
  · cases h

theorem attributeSpanAt_eq (ht : t.IsTiled) (i : Nat) :
    attributeSpanAt t i =
      ofOption ((attributeBlock? (t.row.take i).reverse (t.row.drop i)).map fun width =>
        t.spanOf i (i + width + 1)) := by
  have hlt {width : Nat} := @lt_length_of_attributeBlock t.row (t.row.take i).reverse i width
  rw [attributeBlock?, List.tail_drop] at hlt ⊢
  rw [attributeSpanAt]
  split
  · rename_i hopen
    have hi := lt_length_of_startsWithPunct (Bool.and_eq_true_iff.1 hopen).1
    rw [if_pos hopen] at hlt
    rw [rowFrom_eq_done hi, Attempt.done_bind]
    cases hend : attributeEnd? 0 (t.row.drop (i + 1)) with
    | none => rfl
    | some p =>
      obtain ⟨width, after⟩ := p
      rw [hend] at hlt
      dsimp only at hlt ⊢
      rw [Attempt.ofOption_some, Attempt.done_bind]
      dsimp only
      split
      · rename_i hplace
        rw [tokenSpan_eq_done ht (by omega) (hlt (if_pos hplace))]
        rfl
      · rfl
  · rfl

/-- The attribute block at a place, as a range of indices. -/
def blockAt (before here : List Lexeme) : List (Nat × Nat) :=
  ((attributeBlock? before here).map fun width =>
    (before.length, before.length + width + 1)).toList

theorem attributeBlocks_eq (before row : List Lexeme) :
    attributeBlocks before before.length row = atEachPlace blockAt before row := by
  induction row generalizing before with
  | nil => rfl
  | cons l row ih =>
    rw [attributeBlocks, atEachPlace, ← ih]
    rfl

/-- Attribute blocks are ranges of tokens. -/
theorem holds_of_mem_attributeBlocks {p : Nat × Nat} (h : p ∈ attributeBlocks [] 0 t.row) :
    t.Holds p := by
  rw [← @List.length_nil Lexeme, attributeBlocks_eq] at h
  obtain ⟨passed, here, hrow, hblock⟩ := exists_place_of_mem_atEachPlace h
  rw [blockAt, Option.mem_toList] at hblock
  obtain ⟨width, hwidth, rfl⟩ := Option.map_eq_some_iff.1 hblock
  have hhere : t.row.drop passed.length = here := by rw [hrow, List.drop_left]
  rw [← hhere] at hwidth
  have hlt := lt_length_of_attributeBlock hwidth
  rw [List.append_nil, List.length_reverse]
  exact ⟨by dsimp only; omega, hlt⟩

/-! ## Sites -/

/-- How calls are found in Visual Basic. -/
def callRules : CallRules where
  canCallAfter := canCallAfter
  declares l := isKeyword l "paramarray"
  sameName := Text.equalIgnoringCase

/-- The sites at an index. -/
def sitesAt (t : Tree) (arrays : List DeclaredArray) (i : Nat) : Attempt (List PlacedSite) := do
  let created ← (creationAt t i).toList
  let declared ← (declarationAt t i).toList
  let called ← (t.callAt callRules arrays i).toList
  pure (created ++ declared ++ called)

/-- The sites of a file. -/
def sites (t : Tree) : Attempt (List PlacedSite) := do
  let arrays ← collect (fun i => (paramArrayAt t.row i).toList) 0 t.row.length
  let found ← collect (sitesAt t arrays) 0 t.row.length
  let sections ← collect (fun i => (attributeSpanAt t i).toList) 0 t.row.length
  pure (arrange sections found)

theorem callRead_eq (arrays : List ParamArray) (before row : List Lexeme) :
    callRead? callRules arrays before row = paramArrayCall? arrays before row := by
  cases row with
  | nil => rfl
  | cons l row =>
    rw [callRead?, paramArrayCall?, callOf?]
    cases BracketPair.parens.group? row <;> rfl

/-- Finding sites does not fail. -/
theorem sites_eq_done (ht : t.IsTiled) :
    sites t = .done ((ZeroAlloc.VisualBasic.sites t.row).map t.place) := by
  have hlength {i : Nat} (hi : i < t.row.length) := length_reverse_take (Nat.le_of_lt hi)
  have harrays : collect (fun i => (paramArrayAt t.row i).toList) 0 t.row.length = .done
      ((atEachPlace (fun before here => (paramArray? before here).toList) [] t.row).map
        DeclaredArray.of) := by
    refine collect_eq_done fun i _ => ?_
    rw [paramArrayAt_eq, Attempt.toList_ofOption, Option.toList_map]
  have hfound (arrays : List ParamArray) :
      collect (sitesAt t (arrays.map .of)) 0 t.row.length = .done
        ((atEachPlace (fun before here => ((creation? here).toList ++
          (declarationSite? before here).toList ++
            (paramArrayCall? arrays before here).toList).map fun s => s.shift before.length) []
              t.row).map t.place) := by
    refine collect_eq_done fun i hi => ?_
    simp only [sitesAt, creationAt_eq ht hi, declarationAt_eq ht hi, callAt_eq ht, callRead_eq,
      Attempt.toList_ofOption, Attempt.done_bind, Attempt.pure_eq_done, hlength hi,
      List.map_append, List.map_map, Option.toList_map]
    rfl
  have hsections : collect (fun i => (attributeSpanAt t i).toList) 0 t.row.length = .done
      ((attributeBlocks [] 0 t.row).map fun p => t.spanOf p.1 p.2) := by
    rw [← @List.length_nil Lexeme, attributeBlocks_eq]
    refine collect_eq_done fun i hi => ?_
    rw [attributeSpanAt_eq ht, Attempt.toList_ofOption, blockAt, hlength hi, Option.toList_map,
      Option.toList_map, List.map_map]
    rfl
  rw [sites, harrays, Attempt.done_bind, hfound, Attempt.done_bind, hsections, Attempt.done_bind,
    arrange_place ht (fun s hs => liesIn_of_mem_sites hs) fun p hp =>
      holds_of_mem_attributeBlocks hp]
  rfl

end ZeroAlloc.Indexed.VisualBasic

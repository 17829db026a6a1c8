import ZeroAlloc.Place
import ZeroAlloc.Proofs.Bracket
import ZeroAlloc.Site
set_option autoImplicit false

/-! # Sites lie in their rows

A recogniser sees the row from one place on, and the sites that it finds there are moved up to the
place. `liesIn_of_mem_collected` carries what holds of a recogniser to the sites of a file: their
indices are those of lexemes, and a call that leaves out a parameter array is a name with an
argument list. -/

namespace ZeroAlloc

/-- What is recognised somewhere in a row is recognised at one of its places. -/
theorem exists_place_of_mem_atEachPlace {α : Type} {recognise : List Lexeme → List Lexeme → List α}
    {before ls : List Lexeme} {x : α} (h : x ∈ atEachPlace recognise before ls) :
    ∃ passed here, ls = passed ++ here ∧ x ∈ recognise (passed.reverse ++ before) here := by
  induction ls generalizing before with
  | nil => simp [atEachPlace] at h
  | cons l ls ih =>
    rw [atEachPlace, List.mem_append] at h
    rcases h with h | h
    · exact ⟨[], l :: ls, rfl, h⟩
    · obtain ⟨passed, here, rfl, hx⟩ := ih h
      exact ⟨l :: passed, here, rfl, by simpa using hx⟩

theorem mem_atEachPlace {α : Type} {recognise : List Lexeme → List Lexeme → List α}
    {before passed here : List Lexeme} {x : α} (hne : here ≠ [])
    (h : x ∈ recognise (passed.reverse ++ before) here) :
    x ∈ atEachPlace recognise before (passed ++ here) := by
  induction passed generalizing before with
  | nil =>
    obtain ⟨l, here, rfl⟩ := List.exists_cons_of_ne_nil hne
    exact List.mem_append_left _ h
  | cons l passed ih => exact List.mem_append_right _ (ih (by simpa using h))

/-! ## Rests of a row -/

/-- A row starts with one punctuation. -/
theorem startsWithPunct_eq_false {ls : List Lexeme} {p q : String} (hne : p ≠ q)
    (h : startsWithPunct q ls = true) : startsWithPunct p ls = false := by
  cases ls with
  | nil => cases h
  | cons l ls => exact BracketPair.isPunct_eq_false hne h

theorem startsWithPunct_eq_false_of_startsWithIdent {ls : List Lexeme}
    (h : startsWithIdent ls = true) (p : String) : startsWithPunct p ls = false := by
  cases ls with
  | nil => cases h
  | cons l ls =>
    change l.isIdent = true at h
    simp only [Lexeme.isIdent, decide_eq_true_eq] at h
    simp [startsWithPunct_cons, Lexeme.isPunct, h]

theorem startsWithIdent_eq_false {ls : List Lexeme} {p : String}
    (h : startsWithPunct p ls = true) : startsWithIdent ls = false := by
  rw [Bool.eq_false_iff]
  intro hident
  rw [startsWithPunct_eq_false_of_startsWithIdent hident] at h
  cases h

theorem group_eq_none {b : BracketPair} {row : List Lexeme}
    (h : startsWithPunct b.opening row = false) : b.group? row = none := by
  cases row with
  | nil => rfl
  | cons l row =>
    rw [BracketPair.group?, if_neg]
    exact Bool.eq_false_iff.1 h

theorem startsWithPunct_of_group {b : BracketPair} {row : List Lexeme}
    {p : List Lexeme × List Lexeme} (h : b.group? row = some p) :
    startsWithPunct b.opening row = true := by
  rw [← Bool.not_eq_false]
  intro hopen
  rw [group_eq_none hopen] at h
  cases h

/-- A group is as long as its contents and its two brackets. -/
theorem BracketPair.drop_of_group {b : BracketPair} {ls inside rest : List Lexeme}
    (h : b.group? ls = some (inside, rest)) : ls.drop (inside.length + 2) = rest := by
  obtain ⟨opening, close, _, _, rfl⟩ := BracketPair.eq_append_of_group h
  simp [List.drop_append]

theorem BracketPair.suffix_of_group {b : BracketPair} {ls inside rest : List Lexeme}
    (h : b.group? ls = some (inside, rest)) : rest <:+ ls := by
  rw [← drop_of_group h]
  exact List.drop_suffix _ ls

/-- One round of reading levels. -/
theorem arrayLevels_eq (b : BracketPair) (isLevel : List Lexeme → Bool) (row : List Lexeme) :
    arrayLevels b isLevel row =
      if startsWithPunct b.opening row && isLevel row then
        (b.group? row).bind fun p => (arrayLevels b isLevel p.2).map fun q =>
          (ArrayLevel.ofContents p.1 :: q.1, q.2)
      else some ([], row) := by
  rw [arrayLevels]
  change (if (startsWithPunct b.opening row && isLevel row) = true then _ else _) = _
  split
  · split
    · rename_i hgroup
      rw [hgroup]
      rfl
    · rename_i hgroup
      rw [hgroup]
      rfl
  · rfl

theorem suffix_of_arrayLevels {b : BracketPair} {isLevel : List Lexeme → Bool}
    {ls rest : List Lexeme} {levels : List ArrayLevel}
    (h : arrayLevels b isLevel ls = some (levels, rest)) : rest <:+ ls := by
  fun_induction arrayLevels b isLevel ls generalizing levels with
  | case1 ls hlevel hgroup => cases h
  | case2 ls hlevel inside more hgroup ih =>
    obtain ⟨⟨inner, after⟩, hmore, he⟩ := Option.map_eq_some_iff.1 h
    cases he
    exact (ih hmore).trans (BracketPair.suffix_of_group hgroup)
  | case3 ls hlevel =>
    cases h
    exact List.suffix_refl _

/-! ## The extent of a site -/

namespace Site

@[simp] theorem first_shift (n : Nat) (s : Site) : (s.shift n).first = s.first + n := rfl

@[simp] theorem last_shift (n : Nat) (s : Site) : (s.shift n).last = s.last + n := rfl

@[simp] theorem origin_shift (n : Nat) (s : Site) : (s.shift n).origin = s.origin := rfl

@[simp] theorem first_markAttribute (sections : List (Nat × Nat)) (s : Site) :
    (s.markAttribute sections).first = s.first := by
  unfold markAttribute
  split <;> rfl

@[simp] theorem origin_markAttribute (sections : List (Nat × Nat)) (s : Site) :
    (s.markAttribute sections).origin = s.origin := by
  unfold markAttribute
  split <;> rfl

end Site

/-- The site lies in the row: its indices are those of lexemes of the row, in order. A call that
leaves out a parameter array ends with its argument list, which stands behind its first lexeme. -/
structure Site.LiesIn (s : Site) (ls : List Lexeme) : Prop where
  first_le_last : s.first ≤ s.last
  last_lt_length : s.last < ls.length
  call : s.origin.isCompilerGenerated = true →
    ∃ inside rest, BracketPair.parens.group? (ls.drop (s.first + 1)) = some (inside, rest) ∧
      s.last = s.first + inside.length + 2

namespace Site.LiesIn

variable {s : Site} {ls : List Lexeme}

/-- Of a site that the source writes down, only the indices matter. -/
theorem of_written (hfirst : s.first ≤ s.last) (hlast : s.last < ls.length)
    (horigin : s.origin.isCompilerGenerated = false) : s.LiesIn ls :=
  ⟨hfirst, hlast, fun hgenerated => absurd hgenerated (by simp [horigin])⟩

/-- A site that is found at a place lies in the whole row. -/
theorem shift (h : s.LiesIn ls) (passed : List Lexeme) :
    (s.shift passed.length).LiesIn (passed ++ ls) := by
  refine ⟨Nat.add_le_add_right h.first_le_last _, ?_, fun hgenerated => ?_⟩
  · have := h.last_lt_length
    simp only [Site.last_shift, List.length_append]
    omega
  · obtain ⟨inside, rest, hgroup, hlast⟩ := h.call hgenerated
    refine ⟨inside, rest, ?_, ?_⟩
    · rwa [Site.first_shift, Nat.add_right_comm, Nat.add_comm, List.drop_length_add_append]
    · rw [Site.last_shift, Site.first_shift, hlast]
      omega

theorem markAttribute (h : s.LiesIn ls) (sections : List (Nat × Nat)) :
    (s.markAttribute sections).LiesIn ls := by
  unfold Site.markAttribute
  split
  · exact ⟨h.first_le_last, h.last_lt_length, h.call⟩
  · exact h

/-- A call that leaves out a parameter array ends with a bracket. -/
theorem exists_close (h : s.LiesIn ls) (hgenerated : s.origin.isCompilerGenerated = true) :
    ∃ close, ls[s.last]? = some close ∧ close.isPunct ")" = true := by
  obtain ⟨inside, rest, hgroup, hlast⟩ := h.call hgenerated
  obtain ⟨opening, close, _, hclose, hdrop⟩ := BracketPair.eq_append_of_group hgroup
  refine ⟨close, ?_, hclose⟩
  have hat : s.last = s.first + 1 + (opening :: inside).length := by
    rw [hlast, List.length_cons]
    omega
  rw [hat, ← List.getElem?_drop, hdrop, List.getElem?_append_right (Nat.le_refl _), Nat.sub_self]
  rfl

/-- Calls that leave out a parameter array and end at one place are one call. -/
theorem first_eq_of_last_eq {other : Site} (h : s.LiesIn ls) (hother : other.LiesIn ls)
    (hgenerated : s.origin.isCompilerGenerated = true)
    (hgenerated' : other.origin.isCompilerGenerated = true) (hlast : s.last = other.last) :
    s.first = other.first := by
  obtain ⟨inside, rest, hgroup, hs⟩ := h.call hgenerated
  obtain ⟨inside', rest', hgroup', hs'⟩ := hother.call hgenerated'
  have hfirst := BracketPair.eq_of_group_of_group (by decide) hgroup hgroup' (by omega)
  omega

end Site.LiesIn

/-- The call of a method that takes a parameter array lies in the row that starts with it. -/
theorem ParamArray.liesIn_callSite (p : ParamArray) {l : Lexeme} {ls inside rest : List Lexeme}
    (h : BracketPair.parens.group? ls = some (inside, rest)) :
    (p.callSite inside).LiesIn (l :: ls) := by
  refine ⟨Nat.zero_le _, ?_, fun _ => ⟨inside, rest, h, by simp [callSite]⟩⟩
  obtain ⟨opening, close, _, _, rfl⟩ := BracketPair.eq_append_of_group h
  simp [callSite]

/-! ## Initializer lists -/

/-- An equals sign stands in front of the lexeme with the index, up to line breaks. -/
def IsAssigned (ls : List Lexeme) (index : Nat) : Prop :=
  ∃ mark < index, (∃ l, ls[mark]? = some l ∧ l.isPunct "=" = true) ∧
    ∀ k l, mark < k → k < index → ls[k]? = some l → l.isNewline = true

theorem isAssigned_append (front : List Lexeme) {mark : Lexeme} {lines : List Lexeme}
    (hmark : mark.isPunct "=" = true) (hlines : ∀ l ∈ lines, l.isNewline = true)
    (list : List Lexeme) :
    IsAssigned ((front ++ mark :: lines) ++ list) (front ++ mark :: lines).length := by
  refine ⟨front.length, by simp, ⟨mark, by simp, hmark⟩, fun k l hafter hbefore hl => ?_⟩
  obtain ⟨n, rfl⟩ : ∃ n, k = front.length + (n + 1) := ⟨k - front.length - 1, by omega⟩
  rw [List.getElem?_append_left hbefore, List.getElem?_append_right (Nat.le_add_right _ _),
    Nat.add_sub_cancel_left, List.getElem?_cons_succ] at hl
  exact hlines l (List.mem_of_getElem? hl)

namespace Site

/-- The site of an initializer list on a declared array, by the index of the opening bracket. The
`elements` are the contents, with or without line breaks. -/
def ofList (element : ElementType) (allocated : ArrayLevel) (inner : List ArrayLevel)
    (opening : Nat) (contents elements : List Lexeme) : Site where
  first := opening
  last := opening + contents.length + 1
  origin := .implicitInitializer
  inAttribute := false
  element := element.readWith contents
  allocated
  inner
  initializer := some ⟨opening, elements⟩
  malformed := false

/-- The site is an initializer list on an array of the given type: it stands behind an equals sign
of the row, in brackets of one of the pairs. -/
inductive IsListOn (pairs : List BracketPair) (element : ElementType) (allocated : ArrayLevel)
    (inner : List ArrayLevel) : List Lexeme → Site → Prop
  | intro (passed list contents elements rest : List Lexeme) (b : BracketPair) (mem : b ∈ pairs)
      (group : b.group? list = some (contents, rest))
      (isAssigned : IsAssigned (passed ++ list) passed.length)
      (isElements : withoutNewlines contents = withoutNewlines elements) :
      IsListOn pairs element allocated inner (passed ++ list)
        (ofList element allocated inner passed.length contents elements)

theorem IsListOn.liesIn {pairs : List BracketPair} {element : ElementType} {allocated : ArrayLevel}
    {inner : List ArrayLevel} {ls : List Lexeme} {s : Site}
    (h : IsListOn pairs element allocated inner ls s) : s.LiesIn ls := by
  obtain ⟨passed, list, contents, elements, rest, b, -, hgroup, -, -⟩ := h
  obtain ⟨_, _, _, _, rfl⟩ := BracketPair.eq_append_of_group hgroup
  refine .of_written (by dsimp only [ofList]; omega) ?_ rfl
  simp only [ofList, List.cons_append, List.length_cons, List.length_append]
  omega

end Site

/-! ## The sites of a file -/

/-- A site of a file is one that is found at a place of its row, moved up to the place and marked;
the lexemes before the place are given nearest first. -/
theorem exists_found_of_mem_collected {recognise : List Lexeme → List Lexeme → List Site}
    {sections : List (Nat × Nat)} {ls : List Lexeme} {s : Site}
    (h : s ∈ ((atEachPlace (fun before here =>
      (recognise before here).map fun s => s.shift before.length) [] ls).map
        (Site.markAttribute sections)).mergeSort Site.comesBefore) :
    ∃ passed here, ls = passed ++ here ∧ ∃ found ∈ recognise passed.reverse here,
      s = (found.shift passed.length).markAttribute sections := by
  rw [List.mem_mergeSort] at h
  obtain ⟨marked, hmarked, rfl⟩ := List.mem_map.1 h
  obtain ⟨passed, here, rfl, hplace⟩ := exists_place_of_mem_atEachPlace hmarked
  obtain ⟨found, hfound, rfl⟩ := List.mem_map.1 hplace
  rw [List.append_nil] at hfound
  exact ⟨passed, here, rfl, found, hfound, by simp⟩

theorem mem_collected {recognise : List Lexeme → List Lexeme → List Site}
    (sections : List (Nat × Nat)) {passed here : List Lexeme} {found : Site} (hne : here ≠ [])
    (h : found ∈ recognise passed.reverse here) :
    (found.shift passed.length).markAttribute sections ∈
      ((atEachPlace (fun before here =>
        (recognise before here).map fun s => s.shift before.length) [] (passed ++ here)).map
          (Site.markAttribute sections)).mergeSort Site.comesBefore := by
  rw [List.mem_mergeSort]
  refine List.mem_map_of_mem (mem_atEachPlace hne (List.mem_map.2 ⟨found, ?_, ?_⟩))
  · rwa [List.append_nil]
  · rw [List.append_nil, List.length_reverse]

theorem Site.pairwise_mergeSort (sites : List Site) :
    (sites.mergeSort comesBefore).Pairwise fun s other => s.comesBefore other = true := by
  refine List.pairwise_mergeSort (fun a b c hab hbc => ?_) (fun a b => ?_) sites
  · simp only [comesBefore, Bool.or_eq_true, Bool.and_eq_true, decide_eq_true_eq,
      beq_iff_eq] at hab hbc ⊢
    omega
  · simp only [comesBefore, Bool.or_eq_true, Bool.and_eq_true, decide_eq_true_eq, beq_iff_eq]
    omega

/-- The sites that a recogniser finds at the places of a row lie in the row, if each lies in the row
from its own place on. Marking and sorting them changes nothing about that. -/
theorem liesIn_of_mem_collected {recognise : List Lexeme → List Lexeme → List Site}
    (hlies : ∀ before here, ∀ s ∈ recognise before here, s.LiesIn here)
    {sections : List (Nat × Nat)} {ls : List Lexeme} {s : Site}
    (h : s ∈ ((atEachPlace (fun before here =>
      (recognise before here).map fun s => s.shift before.length) [] ls).map
        (Site.markAttribute sections)).mergeSort Site.comesBefore) :
    s.LiesIn ls := by
  obtain ⟨passed, here, rfl, found, hfound, rfl⟩ := exists_found_of_mem_collected h
  exact ((hlies _ _ found hfound).shift passed).markAttribute sections

/-! ## Sites in attribute sections -/

namespace Site

/-- Whether the site lies in one of the stretches of the row, which are pairs of indices. -/
def liesWithin (stretches : List (Nat × Nat)) (s : Site) : Bool :=
  stretches.any fun (first, last) => first ≤ s.first && s.last ≤ last

theorem liesWithin_iff {stretches : List (Nat × Nat)} {s : Site} :
    s.liesWithin stretches = true ↔ ∃ first last, (first, last) ∈ stretches ∧
      first ≤ s.first ∧ s.last ≤ last := by
  simp [liesWithin]

theorem liesWithin_append (stretches others : List (Nat × Nat)) (s : Site) :
    s.liesWithin (stretches ++ others) = (s.liesWithin stretches || s.liesWithin others) :=
  List.any_append

/-- Stretches that move with the site hold it as before. -/
theorem liesWithin_shift (stretches : List (Nat × Nat)) (n : Nat) (s : Site) :
    (s.shift n).liesWithin (stretches.map fun (first, last) => (first + n, last + n)) =
      s.liesWithin stretches := by
  simp [liesWithin, List.any_map, Function.comp_def]

theorem markAttribute_eq (sections : List (Nat × Nat)) (s : Site) :
    s.markAttribute sections =
      if s.liesWithin sections then { s with inAttribute := true } else s := rfl

/-- Marking a site moves it nowhere. -/
theorem liesWithin_markAttribute (sections stretches : List (Nat × Nat)) (s : Site) :
    (s.markAttribute sections).liesWithin stretches = s.liesWithin stretches := by
  rw [markAttribute_eq]
  split <;> rfl

/-- If a recogniser marks no site itself, a site of the file is marked just if it lies in an
attribute section. -/
theorem inAttribute_of_mem_collected {recognise : List Lexeme → List Lexeme → List Site}
    (hunmarked : ∀ before here, ∀ s ∈ recognise before here, s.inAttribute = false)
    {sections : List (Nat × Nat)} {ls : List Lexeme} {s : Site}
    (h : s ∈ ((atEachPlace (fun before here =>
      (recognise before here).map fun s => s.shift before.length) [] ls).map
        (Site.markAttribute sections)).mergeSort Site.comesBefore) :
    s.inAttribute = s.liesWithin sections := by
  obtain ⟨passed, here, -, found, hfound, rfl⟩ := exists_found_of_mem_collected h
  rw [liesWithin_markAttribute, markAttribute_eq]
  split
  · rename_i hwithin
    exact hwithin.symm
  · rename_i hwithin
    exact (hunmarked _ _ found hfound).trans (Bool.eq_false_iff.2 hwithin).symm

end Site

end ZeroAlloc

import ZeroAlloc.Proofs.Site.Extent
set_option autoImplicit false

/-! # What sites are cut from

A site starts with a word or an opening bracket and ends with a closing bracket, and an element type
that is resolved is spelled with sound lexemes of the file (`Site.IsCutFrom`). -/

namespace ZeroAlloc

/-! ## Brackets before a rest -/

/-- Levels of an array type end with a group. -/
theorem exists_group_of_arrayLevels {b : BracketPair} {isLevel : List Lexeme → Bool}
    {ls rest : List Lexeme} {levels : List ArrayLevel} (hne : levels ≠ [])
    (h : arrayLevels b isLevel ls = some (levels, rest)) :
    ∃ list inside, list <:+ ls ∧ b.group? list = some (inside, rest) := by
  fun_induction arrayLevels b isLevel ls generalizing levels with
  | case1 => cases h
  | case2 ls _ inside after hgroup ih =>
    obtain ⟨⟨more, r⟩, hmore, he⟩ := Option.map_eq_some_iff.1 h
    cases he
    cases more with
    | nil =>
      -- this level is the last one
      obtain rfl : after = rest := by
        rw [arrayLevels_eq] at hmore
        split at hmore
        · obtain ⟨p, _, hmore⟩ := Option.bind_eq_some_iff.1 hmore
          obtain ⟨q, _, hq⟩ := Option.map_eq_some_iff.1 hmore
          cases hq
        · cases hmore
          rfl
      exact ⟨ls, inside, List.suffix_rfl, hgroup⟩
    | cons level more =>
      obtain ⟨list, last, hlist, hlast⟩ := ih (List.cons_ne_nil _ _) hmore
      exact ⟨list, last, hlist.trans (BracketPair.suffix_of_group hgroup), hlast⟩
  | case3 =>
    cases h
    exact absurd rfl hne

theorem BracketPair.opensGroup {b : BracketPair} (hb : b = .parens ∨ b = .squares ∨ b = .braces)
    {l : Lexeme} (h : l.isPunct b.opening = true) : l.opensGroup = true := by
  unfold Lexeme.opensGroup
  rcases hb with rfl | rfl | rfl
  · rw [show l.isPunct "(" = true from h, Bool.true_or, Bool.true_or]
  · rw [show l.isPunct "[" = true from h, Bool.or_true, Bool.true_or]
  · rw [show l.isPunct "\x7b" = true from h, Bool.or_true]

theorem BracketPair.closesGroup {b : BracketPair} (hb : b = .parens ∨ b = .squares ∨ b = .braces)
    {l : Lexeme} (h : l.isPunct b.closing = true) : l.closesGroup = true := by
  unfold Lexeme.closesGroup
  rcases hb with rfl | rfl | rfl
  · rw [show l.isPunct ")" = true from h, Bool.true_or, Bool.true_or]
  · rw [show l.isPunct "]" = true from h, Bool.or_true, Bool.true_or]
  · rw [show l.isPunct "\x7d" = true from h, Bool.or_true]

/-- A closing bracket stands directly before the rest of the row. -/
def ClosesBefore (ls rest : List Lexeme) : Prop :=
  ∃ before close, ls = before ++ close :: rest ∧ close.closesGroup = true

namespace ClosesBefore

variable {ls rest : List Lexeme}

theorem of_group {b : BracketPair} (hb : b = .parens ∨ b = .squares ∨ b = .braces)
    {inside : List Lexeme} (h : b.group? ls = some (inside, rest)) : ClosesBefore ls rest := by
  obtain ⟨opening, close, _, hclose, rfl⟩ := BracketPair.eq_append_of_group h
  exact ⟨opening :: inside, close, rfl, BracketPair.closesGroup hb hclose⟩

theorem of_suffix {more : List Lexeme} (h : ClosesBefore ls rest) (hls : ls <:+ more) :
    ClosesBefore more rest := by
  obtain ⟨before, close, rfl, hclose⟩ := h
  obtain ⟨front, rfl⟩ := hls
  exact ⟨front ++ before, close, by simp, hclose⟩

/-- The bracket, by its index. -/
theorem exists_getElem? (h : ClosesBefore ls rest) :
    ∃ close, ls[ls.length - rest.length - 1]? = some close ∧ close.closesGroup = true := by
  obtain ⟨before, close, rfl, hclose⟩ := h
  have hindex : (before ++ close :: rest).length - rest.length - 1 = before.length := by
    simp only [List.length_append, List.length_cons]
    omega
  refine ⟨close, ?_, hclose⟩
  rw [hindex, List.getElem?_append_right (Nat.le_refl _), Nat.sub_self]
  rfl

end ClosesBefore

/-! ## Element types -/

/-- If the type is resolved, it is spelled with sound lexemes of the row, no line breaks among
them. -/
def ElementType.IsReadFrom (t : ElementType) (row : List Lexeme) : Prop :=
  t.resolved = true → ∀ l ∈ t.parts, l ∈ row ∧ l.isNewline = false ∧ l.isError = false

namespace ElementType

variable {row : List Lexeme}

theorem isReadFrom_inferred : inferred.IsReadFrom row := by
  intro hresolved
  cases hresolved

theorem isReadFrom_ofParts {parts : List Lexeme} (h : parts ⊆ row) (isPointer : Bool) :
    (ofParts (withoutNewlines parts) isPointer).IsReadFrom row := by
  intro hresolved l hl
  simp only [ofParts, Bool.and_eq_true, Bool.not_eq_true', List.any_eq_false] at hresolved
  obtain ⟨hmem, hline⟩ := List.mem_filter.1 hl
  exact ⟨h hmem, by simpa using hline, by simpa using hresolved.2 l hl⟩

theorem IsReadFrom.readWith {t : ElementType} (h : t.IsReadFrom row) (ls : List Lexeme) :
    (t.readWith ls).IsReadFrom row := by
  unfold ElementType.readWith
  split
  · intro hresolved
    cases hresolved
  · exact h

end ElementType

/-! ## Sites -/

/-- The site has its ends in the row `ls` and its element type from the row `row`. -/
structure Site.IsCutFrom (s : Site) (row ls : List Lexeme) : Prop where
  first : ∃ l, ls[s.first]? = some l ∧ (l.isIdent = true ∨ l.opensGroup = true)
  last : ∃ l, ls[s.last]? = some l ∧ l.closesGroup = true
  element : s.element.IsReadFrom row

namespace Site.IsCutFrom

variable {s : Site} {row ls : List Lexeme}

theorem shift (h : s.IsCutFrom row ls) (passed : List Lexeme) :
    (s.shift passed.length).IsCutFrom row (passed ++ ls) := by
  have hat (i : Nat) : (passed ++ ls)[i + passed.length]? = ls[i]? := by
    rw [List.getElem?_append_right (Nat.le_add_left _ _), Nat.add_sub_cancel]
  refine ⟨?_, ?_, h.element⟩
  · rw [first_shift, hat]
    exact h.first
  · rw [last_shift, hat]
    exact h.last

theorem markAttribute (h : s.IsCutFrom row ls) (sections : List (Nat × Nat)) :
    (s.markAttribute sections).IsCutFrom row ls := by
  unfold Site.markAttribute
  split
  · exact ⟨h.first, h.last, h.element⟩
  · exact h

/-- An initializer list starts and ends with its brackets. -/
theorem of_isListOn {pairs : List BracketPair} {element : ElementType} {allocated : ArrayLevel}
    {inner : List ArrayLevel} (hpairs : ∀ b ∈ pairs, b = .parens ∨ b = .squares ∨ b = .braces)
    (helement : element.IsReadFrom row) (h : IsListOn pairs element allocated inner ls s) :
    s.IsCutFrom row ls := by
  obtain ⟨passed, list, contents, elements, rest, b, hb, hgroup, -, -⟩ := h
  have hcloses := (ClosesBefore.of_group (hpairs b hb) hgroup).of_suffix
    (List.suffix_append passed list)
  obtain ⟨opening, close, hopening, _, rfl⟩ := BracketPair.eq_append_of_group hgroup
  refine ⟨⟨opening, ?_, .inr (BracketPair.opensGroup (hpairs b hb) hopening)⟩, ?_,
    helement.readWith _⟩
  · rw [ofList, List.getElem?_append_right (Nat.le_refl _), Nat.sub_self]
    rfl
  · have hlast := hcloses.exists_getElem?
    simp only [List.cons_append, List.length_append, List.length_cons] at hlast
    rwa [show passed.length + (contents.length + (rest.length + 1) + 1) - rest.length - 1 =
      passed.length + contents.length + 1 by omega] at hlast

end Site.IsCutFrom

/-- A call is cut from the row that starts with the name of its method. -/
theorem ParamArray.isCutFrom_callSite {p : ParamArray} {row : List Lexeme}
    (h : p.element.IsReadFrom row) {l : Lexeme} (hl : l.isIdent = true)
    {ls inside rest : List Lexeme} (hgroup : BracketPair.parens.group? ls = some (inside, rest)) :
    (p.callSite inside).IsCutFrom row (l :: ls) := by
  refine ⟨⟨l, rfl, .inl hl⟩, ?_, h⟩
  obtain ⟨close, hclose, hpunct⟩ := (p.liesIn_callSite (l := l) hgroup).exists_close rfl
  exact ⟨close, hclose, by simp [Lexeme.closesGroup, hpunct]⟩

/-- The sites of a file are cut from its row if each is cut from the row from its own place on. -/
theorem isCutFrom_of_mem_collected {recognise : List Lexeme → List Lexeme → List Site}
    {sections : List (Nat × Nat)} {ls : List Lexeme} {s : Site}
    (hcut : ∀ before here, here <:+ ls → ∀ s ∈ recognise before here, s.IsCutFrom ls here)
    (h : s ∈ ((atEachPlace (fun before here =>
      (recognise before here).map fun s => s.shift before.length) [] ls).map
        (Site.markAttribute sections)).mergeSort Site.comesBefore) :
    s.IsCutFrom ls ls := by
  obtain ⟨passed, here, rfl, found, hfound, rfl⟩ := exists_found_of_mem_collected h
  have hfound := hcut _ _ (List.suffix_append passed here) found hfound
  exact (hfound.shift passed).markAttribute sections

end ZeroAlloc

import ZeroAlloc.Proofs.Site.Extent
set_option autoImplicit false

/-! # The shape of sites

What everything behind the recognisers relies on: the levels of a site are those of an array type,
an element type that is resolved has a spelling, the initializer list starts within the site, and
the origin of the site tells how its parts fit together (`Site.IsProper`).
`isProper_of_mem_collected` carries it from a recogniser to the sites of a file. -/

namespace ZeroAlloc

/-! ## Levels -/

/-- A level of an array type has at least one dimension, and no size without lexemes. -/
structure ArrayLevel.IsProper (level : ArrayLevel) : Prop where
  rank_pos : 0 < level.rank
  size_ne_nil : ∀ size, some size ∈ level.sizes → size ≠ []

theorem ArrayLevel.isProper_ofContents (inside : List Lexeme) : (ofContents inside).IsProper where
  rank_pos := by
    rw [rank, ofContents, List.length_map]
    exact List.length_pos_iff.2 (splitCommas_ne_nil 0 inside)
  size_ne_nil := by
    rintro size hsize rfl
    obtain ⟨piece, _, hpiece⟩ := List.mem_map.1 hsize
    split at hpiece
    · cases hpiece
    · rename_i hne
      exact hne (Option.some.inj hpiece)

theorem isProper_of_mem_arrayLevels {b : BracketPair} {isLevel : List Lexeme → Bool}
    {ls rest : List Lexeme} {levels : List ArrayLevel}
    (h : arrayLevels b isLevel ls = some (levels, rest)) : ∀ level ∈ levels, level.IsProper := by
  fun_induction arrayLevels b isLevel ls generalizing levels with
  | case1 => cases h
  | case2 ls _ inside _ _ ih =>
    obtain ⟨⟨inner, after⟩, hmore, he⟩ := Option.map_eq_some_iff.1 h
    cases he
    exact List.forall_mem_cons.2 ⟨ArrayLevel.isProper_ofContents inside, ih hmore⟩
  | case3 =>
    cases h
    exact List.forall_mem_nil _

/-! ## Element types -/

/-- If the source tells what the type is, the type is spelled with some character. -/
def ElementType.IsSpelled (t : ElementType) : Prop :=
  t.resolved = true → ∃ l ∈ t.parts, l.text ≠ ""

namespace ElementType

theorem isSpelled_inferred : inferred.IsSpelled := by
  intro hresolved
  cases hresolved

theorem isSpelled_ofParts {parts : List Lexeme} (h : ∀ l ∈ parts, l.text ≠ "")
    (isPointer : Bool) : (ofParts parts isPointer).IsSpelled := by
  intro hresolved
  simp only [ofParts, Bool.and_eq_true, Bool.not_eq_true', List.isEmpty_eq_false_iff] at hresolved
  have hhead := List.head_mem hresolved.1
  exact ⟨_, hhead, h _ hhead⟩

theorem IsSpelled.readWith {t : ElementType} (h : t.IsSpelled) (ls : List Lexeme) :
    (t.readWith ls).IsSpelled := by
  unfold ElementType.readWith
  split
  · intro hresolved
    cases hresolved
  · exact h

theorem spell_ne_empty {parts : List Lexeme} (h : ∃ l ∈ parts, l.text ≠ "") :
    spell parts ≠ "" := by
  fun_induction spell parts with
  | case1 => simp at h
  | case2 l => simpa using h
  | case3 l next ls ih =>
    intro hempty
    obtain ⟨hfirst, hmore⟩ := String.append_eq_empty_iff.1 hempty
    obtain ⟨m, hm, htext⟩ := h
    rcases List.mem_cons.1 hm with rfl | hm
    · exact htext (String.append_eq_empty_iff.1 hfirst).1
    · exact ih ⟨m, hm, htext⟩ hmore

/-- A type that can be a type argument is written with some character. -/
theorem IsSpelled.text_ne_empty {t : ElementType} {text : String} (h : t.IsSpelled)
    (htext : t.text? = some text) : text ≠ "" := by
  unfold text? at htext
  split at htext
  · cases htext
  · rename_i hwritten
    cases htext
    simp only [Bool.or_eq_true, Bool.not_eq_true', not_or, Bool.not_eq_false] at hwritten
    exact spell_ne_empty (h hwritten.2)

end ElementType

/-! ## Sites -/

/-- The parts of the site fit together. A written initializer list of a declaration is all of its
site and has no sizes; the empty one of a call stands at the end of the call; and of a creation
expression, sizes on an inner level are recorded. -/
structure Site.IsProper (s : Site) : Prop where
  element : s.element.IsSpelled
  levels : ∀ level ∈ s.levels, level.IsProper
  initializer : ∀ i, s.initializer = some i → s.first ≤ i.opening ∧ i.opening ≤ s.last
  implicit : s.origin = .implicitInitializer →
    (∃ i, s.initializer = some i ∧ i.opening = s.first) ∧
      ∀ level ∈ s.levels, level.hasSizes = false
  paramArray : s.origin.isCompilerGenerated = true →
    ∃ i, s.initializer = some i ∧ i.opening = s.last ∧ i.contents = []
  malformed : s.origin = .explicit → s.malformed = s.inner.any ArrayLevel.hasSizes

namespace Site.IsProper

variable {s : Site}

theorem shift (h : s.IsProper) (n : Nat) : (s.shift n).IsProper where
  element := h.element
  levels := h.levels
  initializer := by
    intro moved hmoved
    obtain ⟨i, hi, rfl⟩ := Option.map_eq_some_iff.1 hmoved
    obtain ⟨hfirst, hlast⟩ := h.initializer i hi
    exact ⟨Nat.add_le_add_right hfirst n, Nat.add_le_add_right hlast n⟩
  implicit := by
    intro horigin
    obtain ⟨⟨i, hi, hopening⟩, hsizes⟩ := h.implicit horigin
    exact ⟨⟨_, Option.map_eq_some_iff.2 ⟨i, hi, rfl⟩, congrArg (· + n) hopening⟩, hsizes⟩
  paramArray := by
    intro horigin
    obtain ⟨i, hi, hopening, hcontents⟩ := h.paramArray horigin
    exact ⟨_, Option.map_eq_some_iff.2 ⟨i, hi, rfl⟩, congrArg (· + n) hopening, hcontents⟩
  malformed := h.malformed

theorem markAttribute (h : s.IsProper) (sections : List (Nat × Nat)) :
    (s.markAttribute sections).IsProper := by
  unfold Site.markAttribute
  split
  · exact ⟨h.element, h.levels, h.initializer, h.implicit, h.paramArray, h.malformed⟩
  · exact h

/-- A creation expression, by what is particular to it. -/
theorem of_explicit (horigin : s.origin = .explicit) (helement : s.element.IsSpelled)
    (hlevels : ∀ level ∈ s.levels, level.IsProper)
    (hinitializer : ∀ i, s.initializer = some i → s.first ≤ i.opening ∧ i.opening ≤ s.last)
    (hmalformed : s.malformed = s.inner.any ArrayLevel.hasSizes) : s.IsProper where
  element := helement
  levels := hlevels
  initializer := hinitializer
  implicit := by simp [horigin]
  paramArray := by simp [horigin, Origin.isCompilerGenerated]
  malformed _ := hmalformed

/-- An initializer list on an array whose type has no sizes. -/
theorem of_isListOn {pairs : List BracketPair} {element : ElementType} {allocated : ArrayLevel}
    {inner : List ArrayLevel} {ls : List Lexeme} (helement : element.IsSpelled)
    (hlevels : ∀ level ∈ allocated :: inner, level.IsProper)
    (hsizes : ∀ level ∈ allocated :: inner, level.hasSizes = false)
    (h : IsListOn pairs element allocated inner ls s) : s.IsProper := by
  obtain ⟨passed, list, contents, elements, rest, b, -, -, -, -⟩ := h
  refine ⟨helement.readWith _, hlevels, ?_, fun _ => ⟨⟨_, rfl, rfl⟩, hsizes⟩, ?_, ?_⟩
  · rintro i hi
    cases hi
    exact ⟨Nat.le_refl _, by dsimp only [ofList]; omega⟩
  · simp [ofList, Origin.isCompilerGenerated]
  · simp [ofList]

end Site.IsProper

/-- The type of the parameter array is that of an array. -/
structure ParamArray.IsProper (p : ParamArray) : Prop where
  element : p.element.IsSpelled
  levels : ∀ level ∈ p.allocated :: p.inner, level.IsProper

theorem ParamArray.isProper_callSite {p : ParamArray} (h : p.IsProper) (inside : List Lexeme) :
    (p.callSite inside).IsProper where
  element := h.element
  levels := h.levels
  initializer := by
    rintro i hi
    cases hi
    exact ⟨Nat.zero_le _, Nat.le_refl _⟩
  implicit := by
    intro horigin
    cases horigin
  paramArray _ := ⟨_, rfl, rfl, rfl⟩
  malformed := by
    intro horigin
    cases horigin

/-- The sites of a file have the shape that its recogniser gives to each. -/
theorem isProper_of_mem_collected {recognise : List Lexeme → List Lexeme → List Site}
    {sections : List (Nat × Nat)} {ls : List Lexeme} {s : Site}
    (hproper : ∀ before here, here <:+ ls → ∀ s ∈ recognise before here, s.IsProper)
    (h : s ∈ ((atEachPlace (fun before here =>
      (recognise before here).map fun s => s.shift before.length) [] ls).map
        (Site.markAttribute sections)).mergeSort Site.comesBefore) :
    s.IsProper := by
  obtain ⟨passed, here, rfl, found, hfound, rfl⟩ := exists_found_of_mem_collected h
  have hfound := hproper _ _ (List.suffix_append passed here) found hfound
  exact (hfound.shift passed.length).markAttribute sections

end ZeroAlloc

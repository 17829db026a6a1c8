import ZeroAlloc.Config.Validation
set_option autoImplicit false

/-! # Valid factories

The names of a factory in a valid configuration are made of the characters of identifiers, with
points between them at most (`isNameChar_of_error?_eq_none`). -/

namespace ZeroAlloc

/-- Whether a character can stand in a dotted identifier. -/
def isNameChar (c : Char) : Bool :=
  continuesIdentifier c || c == '.'

theorem continuesIdentifier_of_startsIdentifier {c : Char} (h : startsIdentifier c = true) :
    continuesIdentifier c = true := by
  simp only [startsIdentifier, continuesIdentifier, Text.isAlphanumeric, Bool.or_eq_true] at h ⊢
  exact h.imp_left .inl

theorem continuesIdentifier_of_isIdentifier {cs : List Char} (h : isIdentifier cs = true) :
    ∀ c ∈ cs, continuesIdentifier c = true := by
  cases cs with
  | nil => exact List.forall_mem_nil _
  | cons c cs =>
    simp only [isIdentifier, Bool.and_eq_true, List.all_eq_true] at h
    exact List.forall_mem_cons.2 ⟨continuesIdentifier_of_startsIdentifier h.1, h.2⟩

/-- Every character is a point or belongs to a part. -/
theorem exists_part_of_mem {part cs : List Char} {c : Char} (h : c ∈ part ∨ c ∈ cs) :
    c = '.' ∨ ∃ p ∈ dottedParts part cs, c ∈ p := by
  fun_induction dottedParts part cs with
  | case1 part => exact .inr ⟨_, List.mem_cons_self, by simpa using h⟩
  | case2 part cs ih =>
    rcases h with h | h
    · exact .inr ⟨_, List.mem_cons_self, by simpa using h⟩
    · rcases List.mem_cons.1 h with rfl | h
      · exact .inl rfl
      · exact (ih (.inr h)).imp_right fun ⟨p, hp, hc⟩ => ⟨p, List.mem_cons_of_mem _ hp, hc⟩
  | case3 part d cs _ ih =>
    refine ih ?_
    rcases h with h | h
    · exact .inl (List.mem_cons_of_mem d h)
    · rcases List.mem_cons.1 h with rfl | h
      · exact .inl List.mem_cons_self
      · exact .inr h

theorem isNameChar_of_isDottedIdentifier {cs : List Char} (h : isDottedIdentifier cs = true) :
    ∀ c ∈ cs, isNameChar c = true := by
  intro c hc
  rw [isNameChar, Bool.or_eq_true, beq_iff_eq]
  rcases exists_part_of_mem (.inr hc) with hpoint | ⟨p, hp, hc⟩
  · exact .inr hpoint
  · exact .inl (continuesIdentifier_of_isIdentifier (List.all_eq_true.1 h p hp) c hc)

theorem FactoryField.isNameChar_of_accepts (field : FactoryField) {value : String}
    (h : field.accepts value = true) : ∀ c ∈ value.toList, isNameChar c = true := by
  have hidentifier (h : isIdentifier value.toList = true) : ∀ c ∈ value.toList,
      isNameChar c = true := by
    intro c hc
    rw [isNameChar, continuesIdentifier_of_isIdentifier h c hc, Bool.true_or]
  cases field with
  | namespaceName => exact isNameChar_of_isDottedIdentifier h
  | typeName => exact hidentifier h
  | method => exact hidentifier h

/-- A valid configuration has no field that is not accepted. -/
theorem Config.accepts_of_error?_eq_none {config : Config} (h : config.error? = none)
    (field : FactoryField) : field.accepts (field.value config.factory) = true := by
  rw [error?, Option.or_eq_none_iff, List.findSome?_eq_none_iff] at h
  have hfield := h.1 field (by cases field <;> simp)
  rw [fieldError?] at hfield
  split at hfield
  · assumption
  · cases hfield

/-- The names of the factory of a valid configuration. -/
theorem Config.isNameChar_of_error?_eq_none {config : Config} (h : config.error? = none)
    (field : FactoryField) :
    ∀ c ∈ (field.value config.factory).toList, isNameChar c = true :=
  field.isNameChar_of_accepts (accepts_of_error?_eq_none h field)

end ZeroAlloc

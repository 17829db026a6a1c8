import ZeroAlloc.Decision
set_option autoImplicit false

/-! # Evidence

What it takes for the length of a site to count as zero, and for a site to be flagged. -/

namespace ZeroAlloc.Site

variable {s : Site} {language : Language} {constants : Constants} {policy : Policy}

/-- Only a size that is given is evidence for the constant zero. -/
theorem exists_size_of_evidence
    (h : s.evidence language constants = .constantZero) :
    ∃ size, s.allocated.sizes.head? = some (some size) ∧
      language.length? constants size = some 0 := by
  unfold evidence at h
  split at h
  · rename_i size sizes hsizes
    refine ⟨size, by rw [hsizes]; rfl, ?_⟩
    split at h
    · assumption
    · cases h
    · cases h
  · split at h
    · split at h <;> cases h
    · cases h

/-- The evidence of an empty list is a list without contents. -/
theorem exists_initializer_of_evidence
    (h : s.evidence language constants = .emptyInitializer) :
    ∃ i, s.initializer = some i ∧ i.contents = [] := by
  unfold evidence at h
  split at h
  · split at h <;> cases h
  · split at h
    next i hi =>
      split at h
      next hempty => exact ⟨i, hi, List.isEmpty_iff.1 hempty⟩
      next => cases h
    next => cases h

/-- A site is flagged only for evidence of a length of zero, and only if its element type is
resolved. -/
theorem isZero_and_resolved_of_flag (h : s.decision language constants policy = .flag) :
    (s.evidence language constants).isZero = true ∧ s.element.resolved = true := by
  unfold decision at h
  -- the tests before the evidence pass the site over
  iterate 5
    split at h
    · cases h
  have hresolved (h : (if s.element.resolved then Decision.flag else .skip .unresolvedType) =
      .flag) : s.element.resolved = true := by
    split at h
    · assumption
    · cases h
  revert h
  cases s.evidence language constants with
  | constantZero => exact fun h => ⟨rfl, hresolved h⟩
  | emptyInitializer => exact fun h => ⟨rfl, hresolved h⟩
  | constantNonZero =>
    intro h
    cases h
  | unknown =>
    intro h
    cases h

theorem isZero_of_flag (h : s.decision language constants policy = .flag) :
    (s.evidence language constants).isZero = true :=
  (isZero_and_resolved_of_flag h).1

theorem resolved_of_flag (h : s.decision language constants policy = .flag) :
    s.element.resolved = true :=
  (isZero_and_resolved_of_flag h).2

/-- A site is flagged for a size that is zero, or else for an empty list. -/
theorem size_or_initializer_of_flag (h : s.decision language constants policy = .flag) :
    (∃ size, s.allocated.sizes.head? = some (some size) ∧
      language.length? constants size = some 0) ∨
    ∃ i, s.initializer = some i ∧ i.contents = [] := by
  have hzero := isZero_of_flag h
  cases hevidence : s.evidence language constants with
  | constantZero => exact .inl (exists_size_of_evidence hevidence)
  | emptyInitializer => exact .inr (exists_initializer_of_evidence hevidence)
  | constantNonZero =>
    rw [hevidence] at hzero
    cases hzero
  | unknown =>
    rw [hevidence] at hzero
    cases hzero

end ZeroAlloc.Site

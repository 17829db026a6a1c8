import ZeroAlloc.Suppression
set_option autoImplicit false

/-! # Active and silenced diagnostics

The suppressions of a file split its diagnostics in two (`isSplit`): each diagnostic goes to one
side, and each side keeps their order. -/

namespace ZeroAlloc.Suppression

/-- The diagnostics are those of two lists put together again in order: the active ones, which no
suppression covers, and the silenced ones, each with the first suppression that covers it. -/
inductive IsSplit (suppressions : List Suppression) :
    List Diagnostic → List Diagnostic → List SuppressedDiagnostic → Prop where
  | nil : IsSplit suppressions [] [] []
  | active {d : Diagnostic} {ds active : List Diagnostic} {silenced : List SuppressedDiagnostic}
      (uncovered : ∀ s ∈ suppressions, s.covers d = false)
      (more : IsSplit suppressions ds active silenced) :
      IsSplit suppressions (d :: ds) (d :: active) silenced
  | silenced {d : Diagnostic} {ds active : List Diagnostic} {silenced : List SuppressedDiagnostic}
      {before behind : List Suppression} {s : Suppression}
      (place : suppressions = before ++ s :: behind)
      (first : ∀ t ∈ before, t.covers d = false) (covered : s.covers d = true)
      (more : IsSplit suppressions ds active silenced) :
      IsSplit suppressions (d :: ds) active (⟨d, s⟩ :: silenced)

theorem isSplit (suppressions : List Suppression) (ds : List Diagnostic) :
    IsSplit suppressions ds (active suppressions ds) (suppressed suppressions ds) := by
  induction ds with
  | nil => exact .nil
  | cons d ds ih =>
    cases hfind : suppressions.find? (·.covers d) with
    | none =>
      have huncovered : ∀ s ∈ suppressions, s.covers d = false := by
        simpa using hfind
      have hactive : active suppressions (d :: ds) = d :: active suppressions ds := by
        rw [active, List.filter_cons_of_pos (by simpa using huncovered), active]
      have hsilenced : suppressed suppressions (d :: ds) = suppressed suppressions ds := by
        rw [suppressed, List.filterMap_cons_none (by rw [hfind]; rfl), suppressed]
      rw [hactive, hsilenced]
      exact .active huncovered ih
    | some s =>
      obtain ⟨hcovered, before, behind, hplace, hfirst⟩ := List.find?_eq_some_iff_append.1 hfind
      have hany : suppressions.any (·.covers d) = true :=
        List.any_eq_true.2 ⟨s, List.mem_of_find?_eq_some hfind, hcovered⟩
      have hactive : active suppressions (d :: ds) = active suppressions ds := by
        rw [active, List.filter_cons_of_neg (by simp [hany]), active]
      have hsilenced :
          suppressed suppressions (d :: ds) = ⟨d, s⟩ :: suppressed suppressions ds := by
        rw [suppressed, List.filterMap_cons_some (by rw [hfind]; rfl), suppressed]
      rw [hactive, hsilenced]
      exact .silenced hplace (fun t ht => by simpa using hfirst t ht) hcovered ih

/-- Whether a diagnostic is silenced depends on its file and line alone. -/
theorem covers_congr (s : Suppression) {d other : Diagnostic} (hfile : d.file = other.file)
    (hline : d.line = other.line) : s.covers d = s.covers other := by
  rw [covers, covers, hfile, hline]

end ZeroAlloc.Suppression

import ZeroAlloc.Proofs.SizeExpr.Grammar
set_option autoImplicit false

/-! # Names and casts in size expressions

The value of an expression depends on the names in it only. These stand in the row that spells it,
and so do the casts. -/

namespace ZeroAlloc.SizeExpr

variable {d : Dialect} {e : SizeExpr} {ls rest : List Lexeme}

/-- The names of constants in an expression. -/
def names : SizeExpr → List String
  | literal _ => []
  | constant name => [name]
  | negate e => e.names
  | cast _ e => e.names
  | convert _ e => e.names
  | add e₁ e₂ => e₁.names ++ e₂.names
  | subtract e₁ e₂ => e₁.names ++ e₂.names
  | multiply e₁ e₂ => e₁.names ++ e₂.names

theorem eval?_congr {value? other? : String → Option Int}
    (h : ∀ name ∈ e.names, value? name = other? name) : e.eval? d value? = e.eval? d other? := by
  induction e with
  | literal text => rfl
  | constant name => exact h name List.mem_cons_self
  | negate e ih => rw [eval?, eval?, ih h]
  | cast marks e ih => exact ih h
  | convert name e ih => exact ih h
  | add e₁ e₂ ih₁ ih₂ =>
    rw [names, List.forall_mem_append] at h
    rw [eval?, eval?, ih₁ h.1, ih₂ h.2]
  | subtract e₁ e₂ ih₁ ih₂ =>
    rw [names, List.forall_mem_append] at h
    rw [eval?, eval?, ih₁ h.1, ih₂ h.2]
  | multiply e₁ e₂ ih₁ ih₂ =>
    rw [names, List.forall_mem_append] at h
    rw [eval?, eval?, ih₁ h.1, ih₂ h.2]

theorem EndsConversion.suffix (h : EndsConversion ls rest) : rest <:+ ls := by
  cases h with
  | closed => exact List.suffix_cons _ _
  | @further comma close inside _ _ _ _ => exact ⟨comma :: (inside ++ [close]), by simp⟩

namespace Spells

variable {category : Category}

theorem suffix (h : Spells d category ls e rest) : rest <:+ ls := by
  induction h with
  | ofProduct _ ih => exact ih
  | add _ _ _ ih₁ ih₂ => exact ih₂.trans ((List.suffix_cons _ _).trans ih₁)
  | subtract _ _ _ ih₁ ih₂ => exact ih₂.trans ((List.suffix_cons _ _).trans ih₁)
  | ofOperand _ ih => exact ih
  | multiply _ _ _ ih₁ ih₂ => exact ih₂.trans ((List.suffix_cons _ _).trans ih₁)
  | negate _ _ ih => exact ih.trans (List.suffix_cons _ _)
  | plus _ _ ih => exact ih.trans (List.suffix_cons _ _)
  | cast _ _ ih => exact ih.trans (List.drop_suffix _ _)
  | ofPrimary _ _ ih => exact ih
  | literal _ => exact List.suffix_cons _ _
  | group _ _ _ ih => exact ((List.suffix_cons _ _).trans ih).trans (List.suffix_cons _ _)
  | @convert name opening _ _ _ _ _ _ _ _ hend ih =>
    exact (hend.suffix.trans ih).trans ⟨[name, opening], rfl⟩
  | constant _ _ => exact List.suffix_cons _ _

/-- A name in an expression is that of a lexeme in the row. -/
theorem exists_of_mem_names (h : Spells d category ls e rest) {name : String}
    (hname : name ∈ e.names) : ∃ l ∈ ls, l.isIdent = true ∧ l.text = name := by
  have more {ls more : List Lexeme} (hsuffix : more <:+ ls)
      (h : ∃ l ∈ more, l.isIdent = true ∧ l.text = name) :
      ∃ l ∈ ls, l.isIdent = true ∧ l.text = name := by
    obtain ⟨l, hl, hident⟩ := h
    exact ⟨l, hsuffix.subset hl, hident⟩
  induction h with
  | ofProduct _ ih => exact ih hname
  | add h₁ _ _ ih₁ ih₂ =>
    rcases List.mem_append.1 hname with hname | hname
    · exact ih₁ hname
    · exact more ((List.suffix_cons _ _).trans h₁.suffix) (ih₂ hname)
  | subtract h₁ _ _ ih₁ ih₂ =>
    rcases List.mem_append.1 hname with hname | hname
    · exact ih₁ hname
    · exact more ((List.suffix_cons _ _).trans h₁.suffix) (ih₂ hname)
  | ofOperand _ ih => exact ih hname
  | multiply h₁ _ _ ih₁ ih₂ =>
    rcases List.mem_append.1 hname with hname | hname
    · exact ih₁ hname
    · exact more ((List.suffix_cons _ _).trans h₁.suffix) (ih₂ hname)
  | negate _ _ ih => exact more (List.suffix_cons _ _) (ih hname)
  | plus _ _ ih => exact more (List.suffix_cons _ _) (ih hname)
  | cast _ _ ih => exact more (List.drop_suffix _ _) (ih hname)
  | ofPrimary _ _ ih => exact ih hname
  | literal _ => cases hname
  | group _ _ _ ih => exact more (List.suffix_cons _ _) (ih hname)
  | @convert word opening _ _ _ _ _ _ _ _ _ ih => exact more ⟨[word, opening], rfl⟩ (ih hname)
  | @constant l _ hident _ =>
    obtain rfl := List.mem_singleton.1 hname
    exact ⟨l, List.mem_cons_self, hident, rfl⟩

end Spells

/-- All casts in the expression have marks with the property. -/
def AllCasts (P : List Lexeme → Prop) : SizeExpr → Prop
  | literal _ => True
  | constant _ => True
  | negate e => e.AllCasts P
  | cast marks e => P marks ∧ e.AllCasts P
  | convert _ e => e.AllCasts P
  | add e₁ e₂ => e₁.AllCasts P ∧ e₂.AllCasts P
  | subtract e₁ e₂ => e₁.AllCasts P ∧ e₂.AllCasts P
  | multiply e₁ e₂ => e₁.AllCasts P ∧ e₂.AllCasts P

/-- The casts in an expression are those that the dialect sees. -/
theorem Spells.allCasts {P : List Lexeme → Prop}
    (hcasts : ∀ {ls width}, d.castWidth? ls = some width → P (ls.take width))
    {category : Category} (h : Spells d category ls e rest) : e.AllCasts P := by
  induction h with
  | ofProduct _ ih => exact ih
  | add _ _ _ ih₁ ih₂ => exact ⟨ih₁, ih₂⟩
  | subtract _ _ _ ih₁ ih₂ => exact ⟨ih₁, ih₂⟩
  | ofOperand _ ih => exact ih
  | multiply _ _ _ ih₁ ih₂ => exact ⟨ih₁, ih₂⟩
  | negate _ _ ih => exact ih
  | plus _ _ ih => exact ih
  | cast hcast _ ih => exact ⟨hcasts hcast, ih⟩
  | ofPrimary _ _ ih => exact ih
  | literal _ => exact trivial
  | group _ _ _ ih => exact ih
  | convert _ _ _ _ _ ih => exact ih
  | constant _ _ => exact trivial

end ZeroAlloc.SizeExpr

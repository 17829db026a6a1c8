import Mathlib.Logic.Relation
import ZeroAlloc.Proofs.Site.Extent
set_option autoImplicit false

/-! # Reading backwards

What a reader has taken can be read back from its end, given the lexemes before the end, nearest
first: brackets are turned around, and lists are followed step by step until no further step is
possible. Each step is a function of the place, so a place has one start (`RunsTo.unique`). -/

namespace ZeroAlloc

/-! ## Repeated steps -/

section Steps

variable {α : Type} {step : α → Option α} {a b c : α}

/-- Repeated steps lead from one place to another. -/
def LeadsTo (step : α → Option α) : α → α → Prop :=
  Relation.ReflTransGen fun x y => step x = some y

/-- Repeated steps lead from one place to another, where no further step is possible. -/
structure RunsTo (step : α → Option α) (a b : α) : Prop where
  leads : LeadsTo step a b
  stops : step b = none

/-- A way that leads elsewhere starts with a step. -/
theorem LeadsTo.exists_step (h : LeadsTo step a c) (hne : a ≠ c) : ∃ b, step a = some b := by
  rcases Relation.ReflTransGen.cases_head h with heq | ⟨b, hb, -⟩
  · exact absurd heq hne
  · exact ⟨b, hb⟩

/-- All steps from a place lead to one end. -/
theorem RunsTo.unique (hb : RunsTo step a b) (hc : RunsTo step a c) : b = c := by
  have hunique : Relator.RightUnique fun x y => step x = some y :=
    fun _ _ _ hy hz => Option.some.inj (hy.symm.trans hz)
  have hend {x y : α} (hx : step x = none) (h : LeadsTo step x y) : x = y := by
    refine Classical.byContradiction fun hne => ?_
    obtain ⟨z, hz⟩ := h.exists_step hne
    rw [hx] at hz
    cases hz
  rcases Relation.ReflTransGen.total_of_right_unique hunique hb.leads hc.leads with h | h
  · exact hend hb.stops h
  · exact (hend hc.stops h).symm

end Steps

/-! ## Groups -/

namespace BracketPair

variable {b : BracketPair}

theorem Nested.reverse {ls : List Lexeme} (h : b.Nested ls) : b.flip.Nested ls.reverse := by
  induction h with
  | nil => exact .nil
  | plain hopen hclose _ ih =>
    rw [List.reverse_cons]
    exact ih.append (.plain hclose hopen .nil)
  | group hopen hinside hclose _ ihinside ih =>
    rw [List.reverse_cons, List.reverse_append, List.reverse_cons, List.append_assoc,
      List.append_assoc]
    exact ih.append (.group hclose ihinside hopen .nil)

/-- A group can be read back from its closing bracket. -/
theorem group?_reverse (hne : b.opening ≠ b.closing) {ls inside rest : List Lexeme}
    (h : b.group? ls = some (inside, rest)) :
    ∃ taken, ls = taken ++ rest ∧ taken.length = inside.length + 2 ∧ ∀ before,
      startsWithPunct b.closing (taken.reverse ++ before) = true ∧
        b.flip.group? (taken.reverse ++ before) = some (inside.reverse, before) := by
  obtain ⟨opening, close, hopen, hclose, hls⟩ := eq_append_of_group h
  refine ⟨opening :: (inside ++ [close]), by simp [hls], by simp, fun before => ?_⟩
  have hreverse : (opening :: (inside ++ [close])).reverse ++ before =
      close :: (inside.reverse ++ opening :: before) := by simp
  rw [hreverse, startsWithPunct_cons]
  refine ⟨hclose, ?_⟩
  have hclose' : close.isPunct b.flip.opening = true := hclose
  rw [group?, if_pos hclose', untilClose_eq_some_iff hne.symm]
  exact ⟨opening, hopen, rfl, (nested_of_group h).reverse⟩

end BracketPair

/-- The levels of a type can be read back, level by level, from the bracket that closes the last
one. -/
theorem leadsTo_of_arrayLevels {b : BracketPair} (hne : b.opening ≠ b.closing)
    {isLevel : List Lexeme → Bool} {step : List Lexeme → Option (List Lexeme)}
    (hstep : ∀ row inside rest (taken : List Lexeme), isLevel row = true →
      b.group? row = some (inside, rest) →
      (∀ before, b.flip.group? (taken.reverse ++ before) = some (inside.reverse, before)) →
      ∀ before, step (taken.reverse ++ before) = some before)
    {ls rest : List Lexeme} {levels : List ArrayLevel}
    (h : arrayLevels b isLevel ls = some (levels, rest)) :
    ∃ taken, ls = taken ++ rest ∧ (∀ before, LeadsTo step (taken.reverse ++ before) before) ∧
      (levels = [] ∧ taken = [] ∨
        ∀ before, startsWithPunct b.closing (taken.reverse ++ before) = true) := by
  fun_induction arrayLevels b isLevel ls generalizing levels with
  | case1 ls hlevel hgroup => cases h
  | case2 ls hlevel inside more hgroup ih =>
    obtain ⟨⟨inner, after⟩, hmore, he⟩ := Option.map_eq_some_iff.1 h
    cases he
    obtain ⟨group, hls, -, hgroups⟩ := BracketPair.group?_reverse hne hgroup
    have hback := hstep ls inside more group (Bool.and_eq_true_iff.1 hlevel).2 hgroup
      fun before => (hgroups before).2
    obtain ⟨taken, rfl, hleads, hclose⟩ := ih hmore
    refine ⟨group ++ taken, by rw [hls, List.append_assoc], fun before => ?_,
      .inr fun before => ?_⟩
    · rw [List.reverse_append, List.append_assoc]
      exact (hleads _).tail (hback before)
    · rcases hclose with ⟨-, rfl⟩ | hclose
      · rw [List.append_nil]
        exact (hgroups before).1
      · rw [List.reverse_append, List.append_assoc]
        exact hclose _
  | case3 ls hlevel =>
    cases h
    exact ⟨[], rfl, fun before => .refl, .inl ⟨rfl, rfl⟩⟩

end ZeroAlloc

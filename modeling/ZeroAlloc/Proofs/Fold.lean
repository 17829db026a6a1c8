import ZeroAlloc.Fold
import ZeroAlloc.Language
import ZeroAlloc.Proofs.SizeExpr.Grammar
set_option autoImplicit false

/-! # Values of size expressions

Folding gives exactly the values that expressions have (`foldWithin_eq_some_iff`): the exact
integers, provided that each literal and each result on the way is represented, and that names lead
through a limited number of definitions. Both dialects have what the grammar of size expressions
asks for, so in both languages folding gives exactly the values that the grammar derives
(`Language.fold_eq_some_iff`). -/

namespace ZeroAlloc

/-- The integer fits into the range in which sizes are computed. -/
def Integer.Represented (n : Int) : Prop :=
  least ≤ n ∧ n ≤ greatest

instance (n : Int) : Decidable (Integer.Represented n) :=
  inferInstanceAs (Decidable (_ ∧ _))

/-- The outcome of an operation on two values, if both are there and it is represented. -/
theorem Integer.bind_bounded_eq_some_iff {op : Int → Int → Int} {a b : Option Int} {k : Int} :
    (a.bind fun n => b.bind fun m => bounded (op n m)) = some k ↔
      ∃ n m, a = some n ∧ b = some m ∧ op n m = k ∧ Represented (op n m) := by
  constructor
  · intro h
    obtain ⟨n, hn, h⟩ := Option.bind_eq_some_iff.1 h
    obtain ⟨m, hm, hbounded⟩ := Option.bind_eq_some_iff.1 h
    exact ⟨n, m, hn, hm, bounded_eq_some_iff.1 hbounded⟩
  · rintro ⟨n, m, rfl, rfl, hk⟩
    exact bounded_eq_some_iff.2 hk

/-- Every integer literal of the dialect is represented. -/
def Dialect.LiteralsRepresented (d : Dialect) : Prop :=
  ∀ {text n}, d.literal? text = some n → Integer.Represented n

namespace SizeExpr

open Integer (Represented)

/-- The expression, which stands `depth` definitions deep, has the value. -/
inductive HasValue (d : Dialect) (constants : Constants) : Nat → SizeExpr → Int → Prop where
  | literal {depth : Nat} {text : String} {n : Int} (hliteral : d.literal? text = some n)
      (hn : Represented n) : HasValue d constants depth (.literal text) n
  | constant {depth : Nat} {name : String} {definition : List Lexeme} {e : SizeExpr} {n : Int}
      (hdepth : depth < maxConstantDepth)
      (hget : constants.get? (d.canonicalName name) = some definition)
      (hspells : Spells d .sum definition e []) (h : HasValue d constants (depth + 1) e n) :
      HasValue d constants depth (.constant name) n
  | negate {depth : Nat} {e : SizeExpr} {n : Int} (h : HasValue d constants depth e n)
      (hn : Represented (-n)) : HasValue d constants depth (.negate e) (-n)
  | cast {depth : Nat} {marks : List Lexeme} {e : SizeExpr} {n : Int}
      (h : HasValue d constants depth e n) : HasValue d constants depth (.cast marks e) n
  | convert {depth : Nat} {name : String} {e : SizeExpr} {n : Int}
      (h : HasValue d constants depth e n) : HasValue d constants depth (.convert name e) n
  | add {depth : Nat} {e₁ e₂ : SizeExpr} {n m : Int} (h₁ : HasValue d constants depth e₁ n)
      (h₂ : HasValue d constants depth e₂ m) (hn : Represented (n + m)) :
      HasValue d constants depth (.add e₁ e₂) (n + m)
  | subtract {depth : Nat} {e₁ e₂ : SizeExpr} {n m : Int} (h₁ : HasValue d constants depth e₁ n)
      (h₂ : HasValue d constants depth e₂ m) (hn : Represented (n - m)) :
      HasValue d constants depth (.subtract e₁ e₂) (n - m)
  | multiply {depth : Nat} {e₁ e₂ : SizeExpr} {n m : Int} (h₁ : HasValue d constants depth e₁ n)
      (h₂ : HasValue d constants depth e₂ m) (hn : Represented (n * m)) :
      HasValue d constants depth (.multiply e₁ e₂) (n * m)

variable {d : Dialect} {constants : Constants}

/-- Evaluation gives the values that expressions have, if it does for the names of constants. -/
theorem eval?_eq_some_iff (hliterals : d.LiteralsRepresented) {value? : String → Option Int}
    {depth : Nat}
    (hvalue : ∀ name n, value? name = some n ↔ HasValue d constants depth (.constant name) n)
    {e : SizeExpr} {n : Int} : e.eval? d value? = some n ↔ HasValue d constants depth e n := by
  constructor
  · intro h
    induction e generalizing n with
    | literal text => exact .literal h (hliterals h)
    | constant name => exact (hvalue name n).1 h
    | negate e ih =>
      obtain ⟨m, hm, hbounded⟩ := Option.bind_eq_some_iff.1 h
      obtain ⟨rfl, hn⟩ := Integer.bounded_eq_some_iff.1 hbounded
      exact .negate (ih hm) hn
    | cast marks e ih => exact .cast (ih h)
    | convert name e ih => exact .convert (ih h)
    | add e₁ e₂ ih₁ ih₂ =>
      obtain ⟨n₁, n₂, h₁, h₂, rfl, hn⟩ := Integer.bind_bounded_eq_some_iff.1 h
      exact .add (ih₁ h₁) (ih₂ h₂) hn
    | subtract e₁ e₂ ih₁ ih₂ =>
      obtain ⟨n₁, n₂, h₁, h₂, rfl, hn⟩ := Integer.bind_bounded_eq_some_iff.1 h
      exact .subtract (ih₁ h₁) (ih₂ h₂) hn
    | multiply e₁ e₂ ih₁ ih₂ =>
      obtain ⟨n₁, n₂, h₁, h₂, rfl, hn⟩ := Integer.bind_bounded_eq_some_iff.1 h
      exact .multiply (ih₁ h₁) (ih₂ h₂) hn
  · intro h
    induction h with
    | literal hliteral _ => exact hliteral
    | constant hdepth hget hspells h _ =>
      exact (hvalue _ _).2 (.constant hdepth hget hspells h)
    | negate _ hn ih =>
      rw [eval?, ih hvalue, Option.bind_some]
      exact Integer.bounded_eq_some_iff.2 ⟨rfl, hn⟩
    | cast _ ih => exact ih hvalue
    | convert _ ih => exact ih hvalue
    | add _ _ hn ih₁ ih₂ =>
      exact Integer.bind_bounded_eq_some_iff.2 ⟨_, _, ih₁ hvalue, ih₂ hvalue, rfl, hn⟩
    | subtract _ _ hn ih₁ ih₂ =>
      exact Integer.bind_bounded_eq_some_iff.2 ⟨_, _, ih₁ hvalue, ih₂ hvalue, rfl, hn⟩
    | multiply _ _ hn ih₁ ih₂ =>
      exact Integer.bind_bounded_eq_some_iff.2 ⟨_, _, ih₁ hvalue, ih₂ hvalue, rfl, hn⟩

end SizeExpr

open SizeExpr (Spells HasValue)

variable {d : Dialect} {constants : Constants}

theorem foldWithin_succ_eq_some_iff (hcasts : d.CastsInBrackets)
    (hliterals : d.LiteralsRepresented) {levels depth : Nat}
    (hvalue : ∀ name n,
      (constants.get? (d.canonicalName name)).bind (foldWithin d constants levels) = some n ↔
        HasValue d constants depth (.constant name) n)
    {ls : List Lexeme} {n : Int} :
    foldWithin d constants (levels + 1) ls = some n ↔
      ∃ e, Spells d .sum ls e [] ∧ HasValue d constants depth e n := by
  rw [foldWithin, Option.bind_eq_some_iff]
  simp only [SizeExpr.parse?_eq_some_iff hcasts, SizeExpr.eval?_eq_some_iff hliterals hvalue]

/-- Folding with a number of levels left gives the values of expressions that stand so many
definitions below the limit. The induction is on the levels. -/
theorem foldWithin_eq_some_iff (hcasts : d.CastsInBrackets) (hliterals : d.LiteralsRepresented)
    {levels depth : Nat} (hlevels : levels + depth = maxConstantDepth) {ls : List Lexeme}
    {n : Int} :
    foldWithin d constants (levels + 1) ls = some n ↔
      ∃ e, Spells d .sum ls e [] ∧ HasValue d constants depth e n := by
  induction levels generalizing depth ls n with
  | zero =>
    -- no name has a value at the limit, and none is looked up
    refine foldWithin_succ_eq_some_iff hcasts hliterals fun name n => ⟨fun h => ?_, fun h => ?_⟩
    · obtain ⟨definition, _, hfold⟩ := Option.bind_eq_some_iff.1 h
      cases hfold
    · cases h with
      | constant hdepth => omega
  | succ levels ih =>
    refine foldWithin_succ_eq_some_iff hcasts hliterals fun name n => ⟨fun h => ?_, fun h => ?_⟩
    · obtain ⟨definition, hget, hfold⟩ := Option.bind_eq_some_iff.1 h
      obtain ⟨e, hspells, hn⟩ := (ih (by omega : levels + (depth + 1) = _)).1 hfold
      exact .constant (by omega) hget hspells hn
    · cases h with
      | constant hdepth hget hspells h =>
        exact Option.bind_eq_some_iff.2 ⟨_, hget, (ih (by omega)).2 ⟨_, hspells, h⟩⟩

theorem fold_eq_some (hcasts : d.CastsInBrackets) (hliterals : d.LiteralsRepresented)
    {ls : List Lexeme} {n : Int} :
    fold d constants ls = some n ↔
      ∃ e, Spells d .sum ls e [] ∧ HasValue d constants 0 e n :=
  foldWithin_eq_some_iff hcasts hliterals (Nat.add_zero _)

/-! ## Folding in each language -/

theorem Integer.represented_of_ofDigits? {radix : Nat} {cs : List Char} {n : Int}
    (h : ofDigits? radix cs = some n) : Represented n := by
  obtain ⟨m, _, hn⟩ := Option.bind_eq_some_iff.1 h
  obtain ⟨rfl, hm⟩ := bounded_eq_some_iff.1 hn
  exact hm

namespace CSharp

theorem literalsRepresented : dialect.LiteralsRepresented := by
  intro text n h
  simp only [dialect, literal?] at h
  split at h <;> exact Integer.represented_of_ofDigits? h

/-- A cast is at least a name in brackets. -/
theorem castWidth?_eq_some {ls : List Lexeme} {width : Nat} (h : castWidth? ls = some width) :
    startsWithPunct "(" ls = true ∧ 2 ≤ width := by
  unfold castWidth? at h
  split at h
  · cases h
  · split at h
    · rename_i l ls hopen
      split at h
      · split at h
        · cases h
          exact ⟨hopen, by omega⟩
        · cases h
      · cases h
    · cases h

theorem castsInBrackets : dialect.CastsInBrackets where
  width_pos h := Nat.lt_of_lt_of_le Nat.zero_lt_two (castWidth?_eq_some h).2
  startsWith h := (castWidth?_eq_some h).1

end CSharp

namespace VisualBasic

theorem literalsRepresented : dialect.LiteralsRepresented := by
  intro text n h
  simp only [dialect, literal?] at h
  split at h
  · exact Integer.represented_of_ofDigits? h
  · exact Integer.represented_of_ofDigits? h
  · exact Integer.represented_of_ofDigits? h
  · cases h
  · split at h
    · cases h
    · exact Integer.represented_of_ofDigits? h

/-- There are no casts. -/
theorem castsInBrackets : dialect.CastsInBrackets where
  width_pos h := by cases h
  startsWith h := by cases h

end VisualBasic

namespace Language

theorem literalsRepresented (language : Language) : language.dialect.LiteralsRepresented := by
  cases language with
  | csharp => exact CSharp.literalsRepresented
  | visualBasic => exact VisualBasic.literalsRepresented

theorem castsInBrackets (language : Language) : language.dialect.CastsInBrackets := by
  cases language with
  | csharp => exact CSharp.castsInBrackets
  | visualBasic => exact VisualBasic.castsInBrackets

/-- A size expression folds to an integer just if the grammar derives the whole row and the integer
is its value. -/
theorem fold_eq_some_iff (language : Language) (constants : Constants) (ls : List Lexeme)
    (n : Int) :
    fold language.dialect constants ls = some n ↔
      ∃ e, SizeExpr.Spells language.dialect .sum ls e [] ∧
        SizeExpr.HasValue language.dialect constants 0 e n :=
  fold_eq_some language.castsInBrackets language.literalsRepresented

end Language

end ZeroAlloc

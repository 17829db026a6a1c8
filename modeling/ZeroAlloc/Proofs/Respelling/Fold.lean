import ZeroAlloc.Fold
import ZeroAlloc.Proofs.Respelling
import ZeroAlloc.Proofs.SizeExpr.Bare
set_option autoImplicit false

/-! # Respelled size expressions

A respelled row spells the respelled expression, and the value is the same (`fold_row`). -/

namespace ZeroAlloc

namespace SizeExpr

/-- The expression with its names and literals respelled. -/
def respelled {canonical : String → String} (r : Respelling canonical) : SizeExpr → SizeExpr
  | literal text => literal (r.name text)
  | constant name => constant (r.name name)
  | negate e => negate (e.respelled r)
  | cast marks e => cast (r.row marks) (e.respelled r)
  | convert name e => convert (r.name name) (e.respelled r)
  | add e₁ e₂ => add (e₁.respelled r) (e₂.respelled r)
  | subtract e₁ e₂ => subtract (e₁.respelled r) (e₂.respelled r)
  | multiply e₁ e₂ => multiply (e₁.respelled r) (e₂.respelled r)

end SizeExpr

namespace Respelling

variable {d : Dialect} (r : Respelling d.canonicalName)

/-- The dialect reads respelled lexemes as it reads the lexemes. -/
structure KeepsSizes : Prop where
  literal : ∀ text, d.literal? (r.name text) = d.literal? text
  castWidth : ∀ ls, d.castWidth? (r.row ls) = d.castWidth? ls
  isConversion : ∀ name, d.isConversion (r.name name) = d.isConversion name

/-- The table with the definitions respelled; its keys are canonical names. -/
def constants (table : Constants) : Constants :=
  table.map (Prod.map id r.row)

theorem get?_constants (table : Constants) (name : String) :
    (r.constants table).get? name = (table.get? name).map r.row := by
  induction table with
  | nil => rfl
  | cons entry table ih =>
    obtain ⟨key, definition⟩ := entry
    simp only [constants, Constants.get?, List.map_cons, Prod.map_apply, id_eq,
      List.lookup_cons] at ih ⊢
    cases name == key with
    | true => rfl
    | false => exact ih

theorem declare_constants (table : Constants) (name : String) (definition : List Lexeme) :
    (r.constants table).declare name (r.row definition) =
      r.constants (table.declare name definition) := by
  simp only [Constants.declare, get?_constants, Option.isSome_map]
  split
  · rfl
  · simp [constants]

/-- The table of respelled definitions. -/
theorem ofDeclarations_row (declarations : List (String × List Lexeme)) :
    Constants.ofDeclarations (declarations.map (Prod.map id r.row)) =
      r.constants (.ofDeclarations declarations) := by
  suffices h : ∀ table, (declarations.map (Prod.map id r.row)).foldl
        (fun table entry => Constants.declare table entry.1 entry.2) (r.constants table) =
      r.constants (declarations.foldl
        (fun table entry => Constants.declare table entry.1 entry.2) table)
    from h []
  induction declarations with
  | nil => exact fun _ => rfl
  | cons entry declarations ih =>
    intro table
    rw [List.map_cons, List.foldl_cons, List.foldl_cons, ← ih, ← declare_constants]
    rfl

/-- What a reader of the respelled row gives, from what it gives on the row. -/
def outcome (out : Option (SizeExpr × List Lexeme)) : Option (SizeExpr × List Lexeme) :=
  out.map (Prod.map (SizeExpr.respelled r) r.row)

@[simp] theorem outcome_none : r.outcome none = none := rfl

@[simp] theorem outcome_some (e : SizeExpr) (rest : List Lexeme) :
    r.outcome (some (e, rest)) = some (e.respelled r, r.row rest) := rfl

/-- A step behind a reader. -/
theorem outcome_bind {out : Option (SizeExpr × List Lexeme)}
    {f f' : SizeExpr × List Lexeme → Option (SizeExpr × List Lexeme)}
    (h : ∀ e rest, out = some (e, rest) →
      f' (e.respelled r, r.row rest) = r.outcome (f (e, rest))) :
    (r.outcome out).bind f' = r.outcome (out.bind f) := by
  rcases out with _ | ⟨e, rest⟩
  · rfl
  · exact h e rest rfl

open SizeExpr (bare sum? sumFrom? product? productFrom? operand? primary? bareEnd)

/-- All readers of size expressions read the respelled row as they read the row. -/
structure ReadsAlike (ls : List Lexeme) : Prop where
  primary : bare (primary? d (r.row ls)) = r.outcome (bare (primary? d ls))
  operand : bare (operand? d (r.row ls)) = r.outcome (bare (operand? d ls))
  productFrom : ∀ e, bare (productFrom? d (e.respelled r) (r.row ls)) =
    r.outcome (bare (productFrom? d e ls))
  product : bare (product? d (r.row ls)) = r.outcome (bare (product? d ls))
  sumFrom : ∀ e, bare (sumFrom? d (e.respelled r) (r.row ls)) =
    r.outcome (bare (sumFrom? d e ls))
  sum : bare (sum? d (r.row ls)) = r.outcome (bare (sum? d ls))

theorem bareEnd_row (ls : List Lexeme) : bareEnd (r.row ls) = (bareEnd ls).map r.row := by
  cases ls with
  | nil => rfl
  | cons l ls =>
    rw [row_cons, SizeExpr.bareEnd_cons, SizeExpr.bareEnd_cons, isPunct_apply, isPunct_apply,
      ← row_cons, untilClose_row]
    split
    · rfl
    · split
      · simp [Function.comp_def]
      · rfl

section Step

variable {r} {l : Lexeme} {ls : List Lexeme}
  (ih : ∀ rest : List Lexeme, rest.length < (l :: ls).length → r.ReadsAlike rest)
include ih

theorem primary_row (hr : r.KeepsSizes) : bare (primary? d (r.row (l :: ls))) =
    r.outcome (bare (primary? d (l :: ls))) := by
  have hls := ih ls (Nat.lt_succ_self _)
  rw [row_cons, SizeExpr.bare_primary_cons, SizeExpr.bare_primary_cons, kind_apply, isPunct_apply,
    isIdent_apply, startsWithPunct_row]
  split
  · rename_i hnumber
    rw [text_of_number _ hnumber]
    rfl
  · split
    · rw [hls.sum]
      refine r.outcome_bind fun e rest _ => ?_
      simp only [startsWithPunct_row, tail_row]
      split <;> rfl
    · split
      · rename_i hident
        have hname : (r.apply l).text = r.name l.text :=
          text_of_ident _ (by simpa [Lexeme.isIdent] using hident)
        rw [hname, hr.isConversion, tail_row]
        split
        · have htail := ih ls.tail (by simp only [List.length_tail, List.length_cons]; omega)
          rw [htail.sum]
          refine r.outcome_bind fun e rest _ => ?_
          dsimp only
          rw [bareEnd_row]
          cases bareEnd rest <;> rfl
        · rfl
      · rfl

theorem operand_row (hr : r.KeepsSizes) : bare (operand? d (r.row (l :: ls))) =
    r.outcome (bare (operand? d (l :: ls))) := by
  have hls := ih ls (Nat.lt_succ_self _)
  have hprimary := primary_row ih hr
  rw [row_cons] at hprimary
  rw [row_cons, SizeExpr.bare_operand_cons, SizeExpr.bare_operand_cons, isPunct_apply,
    isPunct_apply, ← row_cons, hr.castWidth]
  split
  · rw [hls.operand]
    cases bare (operand? d ls) <;> rfl
  · split
    · exact hls.operand
    · cases d.castWidth? (l :: ls) with
      | none => exact hprimary
      | some width =>
        have hdrop := ih (ls.drop (width - 1))
          (by simp only [List.length_drop, List.length_cons]; omega)
        dsimp only
        rw [drop_row, hdrop.operand, take_row]
        cases bare (operand? d (ls.drop (width - 1))) <;> rfl

theorem productFrom_row (e : SizeExpr) : bare (productFrom? d (e.respelled r) (r.row (l :: ls))) =
    r.outcome (bare (productFrom? d e (l :: ls))) := by
  have hls := ih ls (Nat.lt_succ_self _)
  rw [row_cons, SizeExpr.bare_productFrom_cons, SizeExpr.bare_productFrom_cons, isPunct_apply]
  split
  · rw [hls.operand]
    refine r.outcome_bind fun e₂ rest hrest => ?_
    have hlength := SizeExpr.length_lt_of_bare hrest
    exact (ih rest (Nat.lt_succ_of_lt hlength)).productFrom (.multiply e e₂)
  · rfl

theorem sumFrom_row (e : SizeExpr) : bare (sumFrom? d (e.respelled r) (r.row (l :: ls))) =
    r.outcome (bare (sumFrom? d e (l :: ls))) := by
  have hls := ih ls (Nat.lt_succ_self _)
  have hnext {e₂ : SizeExpr} {rest : List Lexeme} (hrest : bare (product? d ls) = some (e₂, rest)) :
      r.ReadsAlike rest :=
    ih rest (Nat.lt_succ_of_lt (SizeExpr.length_lt_of_bare hrest))
  rw [row_cons, SizeExpr.bare_sumFrom_cons, SizeExpr.bare_sumFrom_cons, isPunct_apply,
    isPunct_apply]
  split
  · rw [hls.product]
    exact r.outcome_bind fun e₂ rest hrest => (hnext hrest).sumFrom (.add e e₂)
  · split
    · rw [hls.product]
      exact r.outcome_bind fun e₂ rest hrest => (hnext hrest).sumFrom (.subtract e e₂)
    · rfl

end Step

/-- The readers call each other on shorter rows, or on the same row further down the grammar. -/
theorem readsAlike {r : Respelling d.canonicalName} (hr : r.KeepsSizes) (ls : List Lexeme) :
    r.ReadsAlike ls := by
  induction hn : ls.length using Nat.strongRecOn generalizing ls with
  | ind n ih =>
    have ih' (rest : List Lexeme) (h : rest.length < ls.length) : r.ReadsAlike rest :=
      ih rest.length (hn ▸ h) rest rfl
    have hoperand : bare (operand? d (r.row ls)) = r.outcome (bare (operand? d ls)) := by
      cases ls with
      | nil => rw [row_nil, SizeExpr.bare_operand_nil, outcome_none]
      | cons l ls => exact operand_row ih' hr
    have hproduct : bare (product? d (r.row ls)) = r.outcome (bare (product? d ls)) := by
      rw [SizeExpr.bare_product, SizeExpr.bare_product, hoperand]
      exact r.outcome_bind fun e rest hrest =>
        (ih' rest (SizeExpr.length_lt_of_bare hrest)).productFrom e
    constructor
    case primary =>
      cases ls with
      | nil => rw [row_nil, SizeExpr.bare_primary_nil, outcome_none]
      | cons l ls => exact primary_row ih' hr
    case operand => exact hoperand
    case productFrom =>
      intro e
      cases ls with
      | nil => rw [row_nil, SizeExpr.bare_productFrom_nil, SizeExpr.bare_productFrom_nil]; rfl
      | cons l ls => exact productFrom_row ih' e
    case product => exact hproduct
    case sumFrom =>
      intro e
      cases ls with
      | nil => rw [row_nil, SizeExpr.bare_sumFrom_nil, SizeExpr.bare_sumFrom_nil]; rfl
      | cons l ls => exact sumFrom_row ih' e
    case sum =>
      rw [SizeExpr.bare_sum, SizeExpr.bare_sum, hproduct]
      exact r.outcome_bind fun e rest hrest =>
        (ih' rest (SizeExpr.length_lt_of_bare hrest)).sumFrom e

/-! ## Values -/

variable {r} (hr : r.KeepsSizes)
include hr

theorem parse?_row (ls : List Lexeme) :
    SizeExpr.parse? d (r.row ls) = (SizeExpr.parse? d ls).map (SizeExpr.respelled r) := by
  have hparse (ls : List Lexeme) : SizeExpr.parse? d ls =
      (bare (sum? d ls)).bind fun out => if out.2.isEmpty then some out.1 else none := by
    unfold SizeExpr.parse?
    rcases sum? d ls with _ | ⟨e, ⟨_ | ⟨l, rest⟩, h⟩⟩ <;> simp [bare]
  rw [hparse, hparse, (readsAlike hr ls).sum]
  rcases bare (sum? d ls) with _ | ⟨e, rest⟩
  · rfl
  · simp only [outcome_some, Option.bind_some, isEmpty_row]
    split <;> rfl

theorem eval?_respelled {value? other? : String → Option Int}
    (hvalue : ∀ name, other? (r.name name) = value? name) (e : SizeExpr) :
    (e.respelled r).eval? d other? = e.eval? d value? := by
  induction e with
  | literal text => exact hr.literal text
  | constant name => exact hvalue name
  | negate e ih => rw [SizeExpr.respelled, SizeExpr.eval?, SizeExpr.eval?, ih]
  | cast marks e ih => exact ih
  | convert name e ih => exact ih
  | add e₁ e₂ ih₁ ih₂ => rw [SizeExpr.respelled, SizeExpr.eval?, SizeExpr.eval?, ih₁, ih₂]
  | subtract e₁ e₂ ih₁ ih₂ => rw [SizeExpr.respelled, SizeExpr.eval?, SizeExpr.eval?, ih₁, ih₂]
  | multiply e₁ e₂ ih₁ ih₂ => rw [SizeExpr.respelled, SizeExpr.eval?, SizeExpr.eval?, ih₁, ih₂]

/-- A size has one value in both spellings, with the definitions of constants spelled so. -/
theorem fold_row (table : Constants) (ls : List Lexeme) :
    fold d (r.constants table) (r.row ls) = fold d table ls := by
  suffices h : ∀ levels ls, foldWithin d (r.constants table) levels (r.row ls) =
      foldWithin d table levels ls from h _ ls
  intro levels
  induction levels with
  | zero => exact fun _ => rfl
  | succ levels ih =>
    intro ls
    rw [foldWithin, foldWithin, parse?_row hr]
    cases SizeExpr.parse? d ls with
    | none => rfl
    | some e =>
      refine eval?_respelled hr (fun name => ?_) e
      rw [r.canonical_name, get?_constants]
      cases table.get? (d.canonicalName name) with
      | none => rfl
      | some definition => exact ih definition

end Respelling

end ZeroAlloc

import ZeroAlloc.Fold
import ZeroAlloc.Proofs.Indexed.Row
import ZeroAlloc.Proofs.SizeExpr.Names
set_option autoImplicit false

/-! # Folding by indices

The value of a size is computed while the size is read. Every step takes its lexemes from the place
that it has come to, which is never past the end, so nothing fails; and what comes out is the value
of the expression that the size spells (`foldAt_eq`). An operation that has no result ends the
reading at once, which gives no value either way. -/

namespace ZeroAlloc

/-- Every cast of the dialect has an operand behind it. -/
def Dialect.CastsInRow (d : Dialect) : Prop :=
  ∀ ⦃ls : List Lexeme⦄ ⦃width : Nat⦄, d.castWidth? ls = some width → width < ls.length

namespace Indexed

open Attempt (ofOption)
open SizeExpr (bare bareEnd)

/-! ## Reading -/

/-- The index of the bracket that closes an argument list, `depth` brackets out; the row goes on
with the lexeme that has the index `i`. -/
def closeBehind (depth i : Nat) : List Lexeme → Attempt Nat
  | [] => .absent
  | l :: row =>
    if l.isPunct "(" then closeBehind (depth + 1) (i + 1) row
    else if l.isPunct ")" then
      if depth = 0 then pure i
      else do
        let depth ← decrement depth
        closeBehind depth (i + 1) row
    else closeBehind depth (i + 1) row

/-- The index behind the bracket that has an index. -/
def passClose (ls : List Lexeme) (i : Nat) : Attempt Nat :=
  if startsWithPunct ")" (ls.drop i) then pure (i + 1) else .absent

/-- The index behind the call of a conversion, of whose arguments the first one ends at an index. -/
def passConversion (ls : List Lexeme) (i : Nat) : Attempt Nat :=
  if startsWithPunct "," (ls.drop i) then do
    let i ← closeBehind 0 i (ls.drop i)
    passClose ls i
  else passClose ls i

section

variable (d : Dialect) (literalAt valueAt : String → Attempt Int) (ls : List Lexeme)

mutual

/-- The value of the sum at an index, and the index behind it. -/
def sumAt : (fuel i : Nat) → Attempt (Int × Nat)
  | 0, _ => .fault .stuck
  | fuel + 1, i => do
    let (n, i) ← productAt fuel i
    sumLoop fuel n i

/-- The value of the sum that has the value `n` so far and goes on at an index. -/
def sumLoop : (fuel : Nat) → (n : Int) → (i : Nat) → Attempt (Int × Nat)
  | 0, _, _ => .fault .stuck
  | fuel + 1, n, i =>
    if startsWithPunct "+" (ls.drop i) then do
      let (m, i) ← productAt fuel (i + 1)
      let n ← ofOption (Integer.bounded (n + m))
      sumLoop fuel n i
    else if startsWithPunct "-" (ls.drop i) then do
      let (m, i) ← productAt fuel (i + 1)
      let n ← ofOption (Integer.bounded (n - m))
      sumLoop fuel n i
    else pure (n, i)

/-- The value of the product at an index, and the index behind it. -/
def productAt : (fuel i : Nat) → Attempt (Int × Nat)
  | 0, _ => .fault .stuck
  | fuel + 1, i => do
    let (n, i) ← operandAt fuel i
    productLoop fuel n i

/-- The value of the product that has the value `n` so far and goes on at an index. -/
def productLoop : (fuel : Nat) → (n : Int) → (i : Nat) → Attempt (Int × Nat)
  | 0, _, _ => .fault .stuck
  | fuel + 1, n, i =>
    if startsWithPunct "*" (ls.drop i) then do
      let (m, i) ← operandAt fuel (i + 1)
      let n ← ofOption (Integer.bounded (n * m))
      productLoop fuel n i
    else pure (n, i)

/-- The value of the operand at an index, and the index behind it. -/
def operandAt : (fuel i : Nat) → Attempt (Int × Nat)
  | 0, _ => .fault .stuck
  | fuel + 1, i =>
    if startsWithPunct "-" (ls.drop i) then do
      let (n, i) ← operandAt fuel (i + 1)
      let n ← ofOption (Integer.bounded (-n))
      pure (n, i)
    else if startsWithPunct "+" (ls.drop i) then operandAt fuel (i + 1)
    else do
      let row ← rowFrom ls i
      match d.castWidth? row with
      | some width => operandAt fuel (i + width)
      | none => primaryAt fuel i

/-- The value of the primary expression at an index, and the index behind it. -/
def primaryAt : (fuel i : Nat) → Attempt (Int × Nat)
  | 0, _ => .fault .stuck
  | fuel + 1, i =>
    match ls.drop i with
    | [] => .absent
    | l :: row =>
      if l.kind = .number then do
        let n ← literalAt l.text
        pure (n, i + 1)
      else if l.isPunct "(" then do
        let (n, i) ← sumAt fuel (i + 1)
        let i ← passClose ls i
        pure (n, i)
      else if l.isIdent then
        if startsWithPunct "(" row && d.isConversion l.text then do
          let (n, i) ← sumAt fuel (i + 2)
          let i ← passConversion ls i
          pure (n, i)
        else do
          let n ← valueAt l.text
          pure (n, i + 1)
      else .absent

end

end

/-- The value of an expression whose names may lead through fewer than `levels` definitions. -/
def foldAt (d : Dialect) (literalAt : String → Attempt Int) (constants : Constants) :
    (levels : Nat) → List Lexeme → Attempt Int
  | 0, _ => .absent
  | levels + 1, ls =>
    if ls.isEmpty then .absent
    else do
      let valueAt (name : String) : Attempt Int := do
        let definition ← ofOption (constants.get? (d.canonicalName name))
        foldAt d literalAt constants levels definition
      let (n, stop) ← sumAt d literalAt valueAt ls (6 * ls.length + 5) 0
      if stop = ls.length then pure n else .absent

/-! ## What is read -/

theorem closeBehind_eq (depth i : Nat) (row : List Lexeme) :
    closeBehind depth i row =
      ofOption ((BracketPair.parens.untilClose depth row).map fun p => i + p.1.length) := by
  induction row generalizing depth i with
  | nil => rfl
  | cons l row ih =>
    -- a lexeme that is passed adds one to the index
    have hnext (depth : Nat) : closeBehind depth (i + 1) row =
        ofOption (((BracketPair.parens.untilClose depth row).map fun p => (l :: p.1, p.2)).map
          fun p => i + p.1.length) := by
      rw [ih, Option.map_map]
      congr 2
      funext p
      simp only [Function.comp_apply, List.length_cons]
      omega
    have hopening : BracketPair.parens.opening = "(" := rfl
    have hclosing : BracketPair.parens.closing = ")" := rfl
    rw [closeBehind, BracketPair.untilClose.eq_def]
    simp only [hopening, hclosing]
    split
    · exact hnext (depth + 1)
    · split
      · cases depth with
        | zero => rfl
        | succ depth =>
          rw [if_neg (Nat.succ_ne_zero depth), decrement_succ, Attempt.done_bind]
          exact hnext depth
      · exact hnext depth

theorem passConversion_eq {ls : List Lexeme} {i : Nat} :
    passConversion ls i = ofOption ((bareEnd (ls.drop i)).map fun rest => behind ls i rest) := by
  rw [passConversion]
  cases hrow : ls.drop i with
  | nil =>
    rw [if_neg (by simp [startsWithPunct])]
    change passClose ls i = .absent
    rw [passClose, hrow]
    rfl
  | cons l row =>
    have hall : row <:+ ls.drop i := hrow ▸ List.suffix_cons l row
    rw [SizeExpr.bareEnd_cons, startsWithPunct_cons]
    by_cases hcomma : l.isPunct "," = true
    · have hclose : l.isPunct ")" = false := BracketPair.isPunct_eq_false (by decide) hcomma
      rw [if_pos hcomma, hclose, if_neg Bool.false_ne_true, if_pos hcomma, closeBehind_eq]
      cases huntil : BracketPair.parens.untilClose 0 (l :: row) with
      | none => rfl
      | some p =>
        obtain ⟨inside, rest⟩ := p
        obtain ⟨close, hend, hsplit⟩ := BracketPair.eq_append_of_untilClose huntil
        have hdrop : ls.drop (i + inside.length) = close :: rest := by
          rw [← List.drop_drop, hrow, hsplit, List.drop_left]
        simp only [Option.map_some, Attempt.ofOption_some, Attempt.done_bind]
        rw [passClose, hdrop, startsWithPunct_cons,
          if_pos (show close.isPunct ")" = true from hend), behind, hrow, hsplit]
        simp only [List.length_append, List.length_cons, Attempt.pure_eq_done]
        congr 1
        omega
    · rw [if_neg hcomma, if_neg hcomma]
      change passClose ls i = _
      rw [passClose, hrow, startsWithPunct_cons]
      split
      · rw [Option.map_some, Attempt.ofOption_some, behind_of_eq_cons hrow]
        rfl
      · rfl

/-! ## The value of what is read -/

section

variable (d : Dialect) (value : String → Option Int) (ls : List Lexeme)

/-- The value of an expression that the row from an index on starts with, and the index behind
it. -/
def outcome (i : Nat) (out : Option (SizeExpr × List Lexeme)) : Option (Int × Nat) :=
  out.bind fun p => (p.1.eval? d value).map fun n => (n, behind ls i p.2)

end

variable {d : Dialect} {value : String → Option Int} {ls : List Lexeme} {i : Nat}

/-- The value at an index does not depend on where the reading started. -/
theorem outcome_behind {mid : List Lexeme} {out : Option (SizeExpr × List Lexeme)}
    (hmid : mid <:+ ls.drop i) (hout : ∀ p, out = some p → p.2.length ≤ mid.length) :
    outcome d value ls (behind ls i mid) out = outcome d value ls i out := by
  cases out with
  | none => rfl
  | some p => rw [outcome, outcome, Option.bind_some, Option.bind_some,
      behind_of_length_le hmid (hout p rfl)]

/-- An expression and what the loop behind it reads. -/
theorem first_eq {out : Option (SizeExpr × List Lexeme)}
    {more : SizeExpr → List Lexeme → Option (SizeExpr × List Lexeme)}
    {read : Attempt (Int × Nat)} {loop : Int → Nat → Attempt (Int × Nat)}
    (hread : read = ofOption (outcome d value ls i out))
    (hloop : ∀ e mid, out = some (e, mid) → ∀ n, e.eval? d value = some n →
      loop n (behind ls i mid) = ofOption (outcome d value ls i (more e mid)))
    (hnone : ∀ e mid, e.eval? d value = none → outcome d value ls i (more e mid) = none) :
    (do
      let (n, j) ← read
      loop n j) = ofOption (outcome d value ls i (out.bind fun p => more p.1 p.2)) := by
  rw [hread]
  cases out with
  | none => rfl
  | some p =>
    obtain ⟨e, mid⟩ := p
    rw [outcome, Option.bind_some, Option.bind_some]
    cases hvalue : e.eval? d value with
    | none =>
      rw [hnone e mid hvalue]
      rfl
    | some n => exact hloop e mid rfl n hvalue

/-- A further operand of an operation and what the loop behind it reads. -/
theorem next_eq {out : Option (SizeExpr × List Lexeme)}
    {more : SizeExpr → List Lexeme → Option (SizeExpr × List Lexeme)}
    {read : Attempt (Int × Nat)} {loop : Int → Nat → Attempt (Int × Nat)}
    {op : Int → Int → Int} {join : SizeExpr → SizeExpr → SizeExpr} {e : SizeExpr} {n : Int}
    (hjoin : ∀ e₂, (join e e₂).eval? d value = (e.eval? d value).bind fun n =>
      (e₂.eval? d value).bind fun m => Integer.bounded (op n m))
    (he : e.eval? d value = some n) (hread : read = ofOption (outcome d value ls i out))
    (hloop : ∀ e₂ mid, out = some (e₂, mid) → ∀ k, (join e e₂).eval? d value = some k →
      loop k (behind ls i mid) = ofOption (outcome d value ls i (more (join e e₂) mid)))
    (hnone : ∀ e mid, e.eval? d value = none → outcome d value ls i (more e mid) = none) :
    (do
      let (m, j) ← read
      let n ← ofOption (Integer.bounded (op n m))
      loop n j) = ofOption (outcome d value ls i (out.bind fun p => more (join e p.1) p.2)) := by
  rw [hread]
  cases out with
  | none => rfl
  | some p =>
    obtain ⟨e₂, mid⟩ := p
    have hvalue := hjoin e₂
    rw [he, Option.bind_some] at hvalue
    rw [outcome, Option.bind_some, Option.bind_some]
    cases hm : e₂.eval? d value with
    | none =>
      rw [hm, Option.bind_none] at hvalue
      rw [hnone _ mid hvalue]
      rfl
    | some m =>
      rw [hm, Option.bind_some] at hvalue
      simp only [Option.map_some, Attempt.ofOption_some, Attempt.done_bind]
      cases hk : Integer.bounded (op n m) with
      | none =>
        rw [hk] at hvalue
        rw [hnone _ mid hvalue]
        rfl
      | some k =>
        rw [hk] at hvalue
        exact hloop e₂ mid rfl k hvalue

/-- An expression and what closes it. -/
theorem closed_eq {out : Option (SizeExpr × List Lexeme)}
    {close : List Lexeme → Option (List Lexeme)} {wrap : SizeExpr → SizeExpr}
    {read : Attempt (Int × Nat)} {pass : Nat → Attempt Nat}
    (hread : read = ofOption (outcome d value ls i out))
    (hwrap : ∀ e, (wrap e).eval? d value = e.eval? d value)
    (hpass : ∀ e rest, out = some (e, rest) →
      pass (behind ls i rest) = ofOption ((close rest).map (behind ls i))) :
    (do
      let (n, j) ← read
      let j ← pass j
      pure (n, j)) = ofOption (outcome d value ls i
        (out.bind fun p => (close p.2).map fun rest => (wrap p.1, rest))) := by
  rw [hread]
  cases out with
  | none => rfl
  | some p =>
    obtain ⟨e, rest⟩ := p
    rw [outcome, Option.bind_some, Option.bind_some]
    cases hvalue : e.eval? d value with
    | none => cases close rest <;> simp [outcome, hwrap, hvalue]
    | some n =>
      simp only [Option.map_some, Attempt.ofOption_some, Attempt.done_bind]
      rw [hpass e rest rfl]
      cases close rest <;> simp [outcome, hwrap, hvalue]

/-- An operand behind a minus. A value that cannot be negated ends the reading. -/
theorem negated_eq {out : Option (SizeExpr × List Lexeme)} {read : Attempt (Int × Nat)}
    (hread : read = ofOption (outcome d value ls i out)) :
    (do
      let (n, j) ← read
      let n ← ofOption (Integer.bounded (-n))
      pure (n, j)) =
        ofOption (outcome d value ls i (out.map fun p => (.negate p.1, p.2))) := by
  rw [hread]
  cases out with
  | none => rfl
  | some p =>
    rw [outcome, Option.bind_some, Option.map_some, outcome, Option.bind_some, SizeExpr.eval?]
    cases p.1.eval? d value with
    | none => rfl
    | some n =>
      simp only [Option.map_some, Attempt.ofOption_some, Attempt.done_bind, Option.bind_some]
      cases Integer.bounded (-n) <;> rfl

/-- An expression of one lexeme. -/
theorem leaf_eq {l : Lexeme} {row : List Lexeme} (hrow : ls.drop i = l :: row) {e : SizeExpr}
    {read : Attempt Int} (hread : read = ofOption (e.eval? d value)) :
    (do
      let n ← read
      pure (n, i + 1)) = ofOption (outcome d value ls i (some (e, row))) := by
  rw [hread, outcome, Option.bind_some, behind_of_eq_cons hrow]
  cases e.eval? d value <;> rfl

/-- Marks that keep the value. -/
theorem outcome_map {out : Option (SizeExpr × List Lexeme)} {wrap : SizeExpr → SizeExpr}
    (hwrap : ∀ e, (wrap e).eval? d value = e.eval? d value) :
    outcome d value ls i (out.map fun p => (wrap p.1, p.2)) = outcome d value ls i out := by
  cases out with
  | none => rfl
  | some p => simp only [outcome, Option.map_some, Option.bind_some, hwrap]

/-! ## Loops -/

/-- A product without a value has none with further factors. -/
theorem eval?_productFrom_eq_none {e e' : SizeExpr} {row rest : List Lexeme}
    (h : bare (SizeExpr.productFrom? d e row) = some (e', rest))
    (hnone : e.eval? d value = none) : e'.eval? d value = none := by
  induction hlength : row.length using Nat.strongRecOn generalizing row e with
  | ind n ih =>
    cases row with
    | nil =>
      rw [SizeExpr.bare_productFrom_nil] at h
      cases h
      exact hnone
    | cons l row =>
      rw [SizeExpr.bare_productFrom_cons] at h
      split at h
      · obtain ⟨⟨e₂, mid⟩, hoperand, hmore⟩ := Option.bind_eq_some_iff.1 h
        have hmid := SizeExpr.length_lt_of_bare hoperand
        rw [List.length_cons] at hlength
        exact ih mid.length (by omega) hmore (by rw [SizeExpr.eval?, hnone]; rfl) rfl
      · cases h
        exact hnone

/-- A sum without a value has none with further terms. -/
theorem eval?_sumFrom_eq_none {e e' : SizeExpr} {row rest : List Lexeme}
    (h : bare (SizeExpr.sumFrom? d e row) = some (e', rest))
    (hnone : e.eval? d value = none) : e'.eval? d value = none := by
  induction hlength : row.length using Nat.strongRecOn generalizing row e with
  | ind n ih =>
    cases row with
    | nil =>
      rw [SizeExpr.bare_sumFrom_nil] at h
      cases h
      exact hnone
    | cons l row =>
      rw [List.length_cons] at hlength
      rw [SizeExpr.bare_sumFrom_cons] at h
      split at h
      · obtain ⟨⟨e₂, mid⟩, hproduct, hmore⟩ := Option.bind_eq_some_iff.1 h
        have hmid := SizeExpr.length_lt_of_bare hproduct
        exact ih mid.length (by omega) hmore (by rw [SizeExpr.eval?, hnone]; rfl) rfl
      · split at h
        · obtain ⟨⟨e₂, mid⟩, hproduct, hmore⟩ := Option.bind_eq_some_iff.1 h
          have hmid := SizeExpr.length_lt_of_bare hproduct
          exact ih mid.length (by omega) hmore (by rw [SizeExpr.eval?, hnone]; rfl) rfl
        · cases h
          exact hnone

/-! ## Steps -/

section

variable (d value ls)

/-- What the readers give that have as much fuel as the rest of the row asks for. -/
structure Agrees (fuel : Nat) : Prop where
  sum : ∀ i ≤ ls.length, 6 * (ls.length - i) + 4 < fuel →
    sumAt d (ofOption ∘ d.literal?) (ofOption ∘ value) ls fuel i =
      ofOption (outcome d value ls i (bare (SizeExpr.sum? d (ls.drop i))))
  sumLoop : ∀ i ≤ ls.length, 6 * (ls.length - i) + 5 < fuel → ∀ e n, e.eval? d value = some n →
    sumLoop d (ofOption ∘ d.literal?) (ofOption ∘ value) ls fuel n i =
      ofOption (outcome d value ls i (bare (SizeExpr.sumFrom? d e (ls.drop i))))
  product : ∀ i ≤ ls.length, 6 * (ls.length - i) + 3 < fuel →
    productAt d (ofOption ∘ d.literal?) (ofOption ∘ value) ls fuel i =
      ofOption (outcome d value ls i (bare (SizeExpr.product? d (ls.drop i))))
  productLoop : ∀ i ≤ ls.length, 6 * (ls.length - i) + 5 < fuel →
    ∀ e n, e.eval? d value = some n →
      productLoop d (ofOption ∘ d.literal?) (ofOption ∘ value) ls fuel n i =
        ofOption (outcome d value ls i (bare (SizeExpr.productFrom? d e (ls.drop i))))
  operand : ∀ i ≤ ls.length, 6 * (ls.length - i) + 2 < fuel →
    operandAt d (ofOption ∘ d.literal?) (ofOption ∘ value) ls fuel i =
      ofOption (outcome d value ls i (bare (SizeExpr.operand? d (ls.drop i))))
  primary : ∀ i ≤ ls.length, 6 * (ls.length - i) + 1 < fuel →
    primaryAt d (ofOption ∘ d.literal?) (ofOption ∘ value) ls fuel i =
      ofOption (outcome d value ls i (bare (SizeExpr.primary? d (ls.drop i))))

end

/-- What stands behind a rest of the row. -/
theorem length_sub_behind {mid : List Lexeme} (hi : i ≤ ls.length) (hmid : mid <:+ ls.drop i) :
    ls.length - behind ls i mid = mid.length := by
  have := hmid.length_le
  rw [behind]
  rw [List.length_drop] at this ⊢
  omega

/-! ### Rests -/

theorem suffix_of_sum (hd : d.CastsInBrackets) {row rest : List Lexeme} {e : SizeExpr}
    (h : bare (SizeExpr.sum? d row) = some (e, rest)) : rest <:+ row :=
  (SizeExpr.sound_sum hd row.length row rest e (Nat.le_refl _) h).suffix

theorem sound_operand_all (hd : d.CastsInBrackets) (n : Nat) :
    SizeExpr.Sound d .operand n (SizeExpr.operand? d) := by
  cases n with
  | zero => exact SizeExpr.sound_zero _ _
  | succ n => exact SizeExpr.sound_operand hd (SizeExpr.sound_sum hd n)

theorem suffix_of_operand (hd : d.CastsInBrackets) {row rest : List Lexeme} {e : SizeExpr}
    (h : bare (SizeExpr.operand? d row) = some (e, rest)) : rest <:+ row :=
  (sound_operand_all hd row.length row rest e (Nat.le_refl _) h).suffix

theorem suffix_of_product (hd : d.CastsInBrackets) {row rest : List Lexeme} {e : SizeExpr}
    (h : bare (SizeExpr.product? d row) = some (e, rest)) : rest <:+ row :=
  (SizeExpr.sound_product (sound_operand_all hd row.length) row rest e (Nat.le_refl _) h).suffix

/-! ### Sums and products -/

/-- A loop that starts behind an expression. -/
theorem outcome_sumFrom_eq_none {e : SizeExpr} (mid : List Lexeme)
    (h : e.eval? d value = none) :
    outcome d value ls i (bare (SizeExpr.sumFrom? d e mid)) = none := by
  cases hmore : bare (SizeExpr.sumFrom? d e mid) with
  | none => rfl
  | some p =>
    rw [outcome, Option.bind_some, eval?_sumFrom_eq_none hmore h]
    rfl

theorem outcome_productFrom_eq_none {e : SizeExpr} (mid : List Lexeme)
    (h : e.eval? d value = none) :
    outcome d value ls i (bare (SizeExpr.productFrom? d e mid)) = none := by
  cases hmore : bare (SizeExpr.productFrom? d e mid) with
  | none => rfl
  | some p =>
    rw [outcome, Option.bind_some, eval?_productFrom_eq_none hmore h]
    rfl

/-- The loop behind a rest of the row. -/
theorem sumLoop_behind {fuel : Nat} (h : Agrees d value ls fuel) {mid : List Lexeme}
    (hi : i ≤ ls.length) (hmid : mid <:+ ls.drop i) (hfuel : 6 * mid.length + 5 < fuel)
    {e : SizeExpr} {n : Int} (he : e.eval? d value = some n) :
    sumLoop d (ofOption ∘ d.literal?) (ofOption ∘ value) ls fuel n (behind ls i mid) =
      ofOption (outcome d value ls i (bare (SizeExpr.sumFrom? d e mid))) := by
  rw [h.sumLoop _ (behind_le_length mid hi) (by rwa [length_sub_behind hi hmid]) e n he,
    drop_behind hmid, outcome_behind hmid fun p hp => SizeExpr.length_le_of_bare hp]

theorem productLoop_behind {fuel : Nat} (h : Agrees d value ls fuel) {mid : List Lexeme}
    (hi : i ≤ ls.length) (hmid : mid <:+ ls.drop i) (hfuel : 6 * mid.length + 5 < fuel)
    {e : SizeExpr} {n : Int} (he : e.eval? d value = some n) :
    productLoop d (ofOption ∘ d.literal?) (ofOption ∘ value) ls fuel n (behind ls i mid) =
      ofOption (outcome d value ls i (bare (SizeExpr.productFrom? d e mid))) := by
  rw [h.productLoop _ (behind_le_length mid hi) (by rwa [length_sub_behind hi hmid]) e n he,
    drop_behind hmid, outcome_behind hmid fun p hp => SizeExpr.length_le_of_bare hp]

theorem sum_step (hd : d.CastsInBrackets) {fuel : Nat} (h : Agrees d value ls fuel)
    (hi : i ≤ ls.length) (hfuel : 6 * (ls.length - i) + 4 < fuel + 1) :
    sumAt d (ofOption ∘ d.literal?) (ofOption ∘ value) ls (fuel + 1) i =
      ofOption (outcome d value ls i (bare (SizeExpr.sum? d (ls.drop i)))) := by
  rw [sumAt, SizeExpr.bare_sum]
  refine @first_eq d value ls i _ (fun e mid => bare (SizeExpr.sumFrom? d e mid)) _ _
    (h.product i hi (by omega)) (fun e mid hproduct n hn => ?_)
    fun e mid => outcome_sumFrom_eq_none mid
  have hshort := SizeExpr.length_lt_of_bare hproduct
  rw [List.length_drop] at hshort
  exact sumLoop_behind h hi (suffix_of_product hd hproduct) (by omega) hn

theorem product_step (hd : d.CastsInBrackets) {fuel : Nat} (h : Agrees d value ls fuel)
    (hi : i ≤ ls.length) (hfuel : 6 * (ls.length - i) + 3 < fuel + 1) :
    productAt d (ofOption ∘ d.literal?) (ofOption ∘ value) ls (fuel + 1) i =
      ofOption (outcome d value ls i (bare (SizeExpr.product? d (ls.drop i)))) := by
  rw [productAt, SizeExpr.bare_product]
  refine @first_eq d value ls i _ (fun e mid => bare (SizeExpr.productFrom? d e mid)) _ _
    (h.operand i hi (by omega)) (fun e mid hoperand n hn => ?_)
    fun e mid => outcome_productFrom_eq_none mid
  have hshort := SizeExpr.length_lt_of_bare hoperand
  rw [List.length_drop] at hshort
  exact productLoop_behind h hi (suffix_of_operand hd hoperand) (by omega) hn

/-! ### Places further on -/

/-- What is read behind some lexemes, as read from a place. -/
theorem outcome_add {width : Nat} {out : Option (SizeExpr × List Lexeme)}
    (hwidth : i + width ≤ ls.length)
    (hout : ∀ p, out = some p → p.2.length < (ls.drop (i + width)).length) :
    outcome d value ls (i + width) out = outcome d value ls i out := by
  have hsuffix : ls.drop (i + width) <:+ ls.drop i := by
    rw [← List.drop_drop]
    exact List.drop_suffix width _
  have hplace : i + width = behind ls i (ls.drop (i + width)) := by
    rw [behind, List.length_drop, List.length_drop]
    omega
  rw [← outcome_behind hsuffix fun p hp => Nat.le_of_lt (hout p hp), ← hplace]

namespace Agrees

variable {fuel width : Nat}

theorem product_add (h : Agrees d value ls fuel) (hpos : 0 < width)
    (hwidth : i + width ≤ ls.length) (hfuel : 6 * (ls.length - i) ≤ fuel) :
    productAt d (ofOption ∘ d.literal?) (ofOption ∘ value) ls fuel (i + width) =
      ofOption (outcome d value ls i (bare (SizeExpr.product? d (ls.drop (i + width))))) := by
  rw [h.product _ hwidth (by omega), outcome_add hwidth fun p hp => SizeExpr.length_lt_of_bare hp]

theorem operand_add (h : Agrees d value ls fuel) (hpos : 0 < width)
    (hwidth : i + width ≤ ls.length) (hfuel : 6 * (ls.length - i) ≤ fuel) :
    operandAt d (ofOption ∘ d.literal?) (ofOption ∘ value) ls fuel (i + width) =
      ofOption (outcome d value ls i (bare (SizeExpr.operand? d (ls.drop (i + width))))) := by
  rw [h.operand _ hwidth (by omega), outcome_add hwidth fun p hp => SizeExpr.length_lt_of_bare hp]

theorem sum_add (h : Agrees d value ls fuel) (hpos : 0 < width)
    (hwidth : i + width ≤ ls.length) (hfuel : 6 * (ls.length - i) ≤ fuel) :
    sumAt d (ofOption ∘ d.literal?) (ofOption ∘ value) ls fuel (i + width) =
      ofOption (outcome d value ls i (bare (SizeExpr.sum? d (ls.drop (i + width))))) := by
  rw [h.sum _ hwidth (by omega), outcome_add hwidth fun p hp => SizeExpr.length_lt_of_bare hp]

end Agrees

/-! ### Loops -/

theorem sumLoop_step (hd : d.CastsInBrackets) {fuel : Nat} (h : Agrees d value ls fuel)
    (hi : i ≤ ls.length) (hfuel : 6 * (ls.length - i) + 5 < fuel + 1) {e : SizeExpr} {n : Int}
    (he : e.eval? d value = some n) :
    sumLoop d (ofOption ∘ d.literal?) (ofOption ∘ value) ls (fuel + 1) n i =
      ofOption (outcome d value ls i (bare (SizeExpr.sumFrom? d e (ls.drop i)))) := by
  rw [sumLoop]
  cases hrow : ls.drop i with
  | nil =>
    rw [SizeExpr.bare_sumFrom_nil, outcome, Option.bind_some, he, ← hrow, behind_self]
    simp [startsWithPunct, hrow]
  | cons l row =>
    have hsuffix : row <:+ ls.drop i := hrow ▸ List.suffix_cons l row
    have hlength := length_sub_of_eq_cons hrow
    have htail : ls.drop (i + 1) = row := drop_succ_of_eq_cons hrow
    have hproduct := h.product_add Nat.one_pos (show i + 1 ≤ ls.length by omega) (by omega)
    rw [htail] at hproduct
    have hloop (e₂ : SizeExpr) (mid : List Lexeme)
        (hmid : bare (SizeExpr.product? d row) = some (e₂, mid)) (join : SizeExpr) (k : Int)
        (hk : join.eval? d value = some k) :
        sumLoop d (ofOption ∘ d.literal?) (ofOption ∘ value) ls fuel k (behind ls i mid) =
          ofOption (outcome d value ls i (bare (SizeExpr.sumFrom? d join mid))) := by
      have hshort := SizeExpr.length_lt_of_bare hmid
      exact sumLoop_behind h hi ((suffix_of_product hd hmid).trans hsuffix) (by omega) hk
    rw [SizeExpr.bare_sumFrom_cons, startsWithPunct_cons, startsWithPunct_cons]
    split
    · exact @next_eq d value ls i _ (fun e mid => bare (SizeExpr.sumFrom? d e mid)) _ _
        (· + ·) .add e n (fun e₂ => rfl) he hproduct
        (fun e₂ mid hmid k hk => hloop e₂ mid hmid _ k hk)
        fun e mid => outcome_sumFrom_eq_none mid
    · split
      · exact @next_eq d value ls i _ (fun e mid => bare (SizeExpr.sumFrom? d e mid)) _ _
          (· - ·) .subtract e n (fun e₂ => rfl) he hproduct
          (fun e₂ mid hmid k hk => hloop e₂ mid hmid _ k hk)
          fun e mid => outcome_sumFrom_eq_none mid
      · rw [outcome, Option.bind_some, he, ← hrow, behind_self]
        rfl

theorem productLoop_step (hd : d.CastsInBrackets) {fuel : Nat} (h : Agrees d value ls fuel)
    (hi : i ≤ ls.length) (hfuel : 6 * (ls.length - i) + 5 < fuel + 1) {e : SizeExpr} {n : Int}
    (he : e.eval? d value = some n) :
    productLoop d (ofOption ∘ d.literal?) (ofOption ∘ value) ls (fuel + 1) n i =
      ofOption (outcome d value ls i (bare (SizeExpr.productFrom? d e (ls.drop i)))) := by
  rw [productLoop]
  cases hrow : ls.drop i with
  | nil =>
    rw [SizeExpr.bare_productFrom_nil, outcome, Option.bind_some, he, ← hrow, behind_self]
    simp [startsWithPunct, hrow]
  | cons l row =>
    have hsuffix : row <:+ ls.drop i := hrow ▸ List.suffix_cons l row
    have hlength := length_sub_of_eq_cons hrow
    have htail : ls.drop (i + 1) = row := drop_succ_of_eq_cons hrow
    have hoperand := h.operand_add Nat.one_pos (show i + 1 ≤ ls.length by omega) (by omega)
    rw [htail] at hoperand
    rw [SizeExpr.bare_productFrom_cons, startsWithPunct_cons]
    split
    · refine @next_eq d value ls i _ (fun e mid => bare (SizeExpr.productFrom? d e mid)) _ _
        (· * ·) .multiply e n (fun e₂ => rfl) he hoperand (fun e₂ mid hmid k hk => ?_)
        fun e mid => outcome_productFrom_eq_none mid
      have hshort := SizeExpr.length_lt_of_bare hmid
      exact productLoop_behind h hi ((suffix_of_operand hd hmid).trans hsuffix) (by omega) hk
    · rw [outcome, Option.bind_some, he, ← hrow, behind_self]
      rfl

/-! ### Operands and primary expressions -/

theorem operand_step (hd : d.CastsInBrackets) (hrow : d.CastsInRow) {fuel : Nat}
    (h : Agrees d value ls fuel) (hi : i ≤ ls.length) (hfuel : 6 * (ls.length - i) + 2 < fuel + 1) :
    operandAt d (ofOption ∘ d.literal?) (ofOption ∘ value) ls (fuel + 1) i =
      ofOption (outcome d value ls i (bare (SizeExpr.operand? d (ls.drop i)))) := by
  have hprimary := h.primary i hi (by omega)
  rw [operandAt, rowFrom_eq_done hi, Attempt.done_bind]
  cases hdrop : ls.drop i with
  | nil =>
    have hcast : d.castWidth? [] = none := by
      refine Option.eq_none_iff_forall_ne_some.2 fun width hwidth => ?_
      cases hd.startsWith hwidth
    rw [hdrop, SizeExpr.bare_primary_nil] at hprimary
    rw [if_neg (by simp [startsWithPunct]), if_neg (by simp [startsWithPunct]), hcast,
      SizeExpr.bare_operand_nil]
    exact hprimary
  | cons l row =>
    have hlength := length_sub_of_eq_cons hdrop
    have hoperand := h.operand_add Nat.one_pos (show i + 1 ≤ ls.length by omega) (by omega)
    rw [drop_succ_of_eq_cons hdrop] at hoperand
    rw [SizeExpr.bare_operand_cons, startsWithPunct_cons, startsWithPunct_cons]
    split
    · exact negated_eq hoperand
    · split
      · exact hoperand
      · cases hcast : d.castWidth? (l :: row) with
        | none =>
          rw [hdrop] at hprimary
          exact hprimary
        | some width =>
          have hpos := hd.width_pos hcast
          have hlt := hrow hcast
          rw [List.length_cons] at hlt
          have hbehind : ls.drop (i + width) = row.drop (width - 1) := by
            obtain ⟨more, rfl⟩ := Nat.exists_eq_add_of_lt hpos
            rw [← List.drop_drop, hdrop, List.drop_succ_cons, Nat.add_sub_cancel]
          have hcasted := h.operand_add hpos (show i + width ≤ ls.length by omega) (by omega)
          rw [hbehind, ← @outcome_map d value ls i _ (.cast ((l :: row).take width)) fun _ => rfl]
            at hcasted
          exact hcasted

/-- The bracket behind a rest of the row. -/
theorem passClose_behind {rest : List Lexeme} (hrest : rest <:+ ls.drop i) :
    passClose ls (behind ls i rest) =
      ofOption ((if startsWithPunct ")" rest then some rest.tail else none).map (behind ls i)) := by
  rw [passClose, drop_behind hrest]
  cases rest with
  | nil => rfl
  | cons close rest =>
    rw [startsWithPunct_cons, List.tail_cons, behind_cons hrest]
    split <;> rfl

/-- The end of a conversion behind a rest of the row. -/
theorem passConversion_behind {rest : List Lexeme} (hrest : rest <:+ ls.drop i) :
    passConversion ls (behind ls i rest) = ofOption ((bareEnd rest).map (behind ls i)) := by
  rw [passConversion_eq, drop_behind hrest]
  cases hend : bareEnd rest with
  | none => rfl
  | some last =>
    have hle := (SizeExpr.bareEnd_eq_some_iff.1 hend).suffix.length_le
    simp [behind_of_length_le hrest hle]

theorem primary_step (hd : d.CastsInBrackets) {fuel : Nat} (h : Agrees d value ls fuel)
    (hi : i ≤ ls.length) (hfuel : 6 * (ls.length - i) + 1 < fuel + 1) :
    primaryAt d (ofOption ∘ d.literal?) (ofOption ∘ value) ls (fuel + 1) i =
      ofOption (outcome d value ls i (bare (SizeExpr.primary? d (ls.drop i)))) := by
  rw [primaryAt]
  cases hdrop : ls.drop i with
  | nil =>
    rw [SizeExpr.bare_primary_nil]
    rfl
  | cons l row =>
    have hsuffix : row <:+ ls.drop i := hdrop ▸ List.suffix_cons l row
    have hlength := length_sub_of_eq_cons hdrop
    have htail : ls.drop (i + 1) = row := drop_succ_of_eq_cons hdrop
    rw [SizeExpr.bare_primary_cons]
    dsimp only
    split
    · exact leaf_eq hdrop rfl
    · split
      · have hsum := h.sum_add Nat.one_pos (show i + 1 ≤ ls.length by omega) (by omega)
        rw [htail] at hsum
        have hclosed (p : SizeExpr × List Lexeme) :
            (if startsWithPunct ")" p.2 then some (p.1, p.2.tail) else none) =
              (if startsWithPunct ")" p.2 then some p.2.tail else none).map (p.1, ·) := by
          split <;> rfl
        simp only [hclosed]
        exact closed_eq hsum (fun _ => rfl) fun e rest hread =>
          passClose_behind ((suffix_of_sum hd hread).trans hsuffix)
      · split
        · split
          · rename_i hconversion
            have hopening : row.tail <:+ ls.drop i := (List.tail_suffix row).trans hsuffix
            have hlong : 0 < row.length := by
              cases row with
              | nil => cases hconversion
              | cons _ _ => exact Nat.succ_pos _
            have hinside : ls.drop (i + 2) = row.tail := by
              rw [← htail, List.tail_drop]
            have hsum := h.sum_add Nat.two_pos (show i + 2 ≤ ls.length by omega) (by omega)
            rw [hinside] at hsum
            exact closed_eq hsum (fun _ => rfl) fun e rest hread =>
              passConversion_behind ((suffix_of_sum hd hread).trans hopening)
          · exact leaf_eq hdrop rfl
        · rfl

/-! ## The whole expression -/

/-- Every reader that has enough fuel agrees: without any fuel there is nothing to show, and with
more each one goes on with the others. -/
theorem agrees (hd : d.CastsInBrackets) (hrow : d.CastsInRow) (fuel : Nat) :
    Agrees d value ls fuel := by
  induction fuel with
  | zero =>
    constructor <;> intros <;> contradiction
  | succ fuel ih =>
    exact {
      sum := fun i hi hfuel => sum_step hd ih hi hfuel
      sumLoop := fun i hi hfuel e n he => sumLoop_step hd ih hi hfuel he
      product := fun i hi hfuel => product_step hd ih hi hfuel
      productLoop := fun i hi hfuel e n he => productLoop_step hd ih hi hfuel he
      operand := fun i hi hfuel => operand_step hd hrow ih hi hfuel
      primary := fun i hi hfuel => primary_step hd ih hi hfuel }

/-- A row is an expression if nothing is left behind the sum that it starts with. -/
theorem parse?_eq (ls : List Lexeme) :
    SizeExpr.parse? d ls =
      (bare (SizeExpr.sum? d ls)).bind fun p => if p.2.isEmpty then some p.1 else none := by
  refine Option.ext fun e => ?_
  rw [SizeExpr.parse?_eq_some_iff_bare]
  rcases bare (SizeExpr.sum? d ls) with _ | ⟨e', _ | ⟨l, rest⟩⟩ <;> simp

/-- The value of the definition that a name has. -/
def valueOf? (d : Dialect) (constants : Constants) (levels : Nat) (name : String) : Option Int :=
  (constants.get? (d.canonicalName name)).bind (foldWithin d constants levels)

/-- Folding never fails, and gives the value that the expression has. -/
theorem foldAt_eq (hd : d.CastsInBrackets) (hrow : d.CastsInRow) (constants : Constants)
    (levels : Nat) (ls : List Lexeme) :
    foldAt d (ofOption ∘ d.literal?) constants levels ls =
      ofOption (foldWithin d constants levels ls) := by
  induction levels generalizing ls with
  | zero => rfl
  | succ levels ih =>
    have hvalue : (fun name => ofOption (constants.get? (d.canonicalName name)) >>=
        foldAt d (ofOption ∘ d.literal?) constants levels) =
          ofOption ∘ valueOf? d constants levels :=
      funext fun name => Attempt.bind_eq_ofOption rfl fun definition _ => ih definition
    rw [foldAt, foldWithin, parse?_eq]
    split
    · rename_i hempty
      rw [List.isEmpty_iff.1 hempty, SizeExpr.bare_sum, SizeExpr.bare_product,
        SizeExpr.bare_operand_nil]
      rfl
    · have hsum := (@agrees d (valueOf? d constants levels) ls hd hrow (6 * ls.length + 5)).sum 0
        (Nat.zero_le _) (by omega)
      rw [List.drop_zero] at hsum
      change (sumAt d (ofOption ∘ d.literal?) (fun name =>
        ofOption (constants.get? (d.canonicalName name)) >>=
          foldAt d (ofOption ∘ d.literal?) constants levels) ls (6 * ls.length + 5) 0 >>= _) = _
      rw [hvalue, hsum]
      cases hread : bare (SizeExpr.sum? d ls) with
      | none => rfl
      | some p =>
        obtain ⟨e, rest⟩ := p
        have hstop : behind ls 0 rest = ls.length ↔ rest = [] := by
          have hle := (suffix_of_sum hd hread).length_le
          rw [behind, List.drop_zero, ← List.length_eq_zero_iff]
          omega
        rw [outcome, Option.bind_some, Option.bind_some]
        cases heval : e.eval? d (valueOf? d constants levels) with
        | none =>
          split
          · exact (congrArg ofOption heval).symm
          · rfl
        | some n =>
          simp only [Option.map_some, Attempt.ofOption_some, Attempt.done_bind, hstop]
          cases rest with
          | nil => exact (congrArg ofOption heval).symm
          | cons l rest => rfl

end Indexed

end ZeroAlloc

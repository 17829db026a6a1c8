import ZeroAlloc.Place
import ZeroAlloc.Proofs.Bracket
import ZeroAlloc.SizeExpr
set_option autoImplicit false

/-! # What the readers of size expressions read

One equation for each reader, in which the rests are plain rows without bounds on their lengths. -/

namespace ZeroAlloc.SizeExpr

variable {d : Dialect} {e : SizeExpr} {l : Lexeme} {ls rest : List Lexeme}

/-- The outcome of a reader without the bound on the length of the rest. -/
def bare {p : List Lexeme → Prop} (out : Option (SizeExpr × {rest // p rest})) :
    Option (SizeExpr × List Lexeme) :=
  out.map fun (e, r) => (e, r.val)

theorem length_lt_of_bare {out : Option (SizeExpr × Rest ls)} (h : bare out = some (e, rest)) :
    rest.length < ls.length := by
  obtain ⟨⟨e, r⟩, _, he⟩ := Option.map_eq_some_iff.1 h
  cases he
  exact r.property

theorem length_le_of_bare {out : Option (SizeExpr × Remainder ls)} {p : SizeExpr × List Lexeme}
    (h : bare out = some p) : p.2.length ≤ ls.length := by
  obtain ⟨⟨e, r⟩, _, rfl⟩ := Option.map_eq_some_iff.1 h
  exact r.property

/-! ## Sums -/

theorem bare_sum :
    bare (sum? d ls) = (bare (product? d ls)).bind fun (e, rest) => bare (sumFrom? d e rest) := by
  rw [sum?]
  cases product? d ls with
  | none => rfl
  | some out => simp [bare, Remainder.after, Function.comp_def]

theorem bare_sumFrom_nil : bare (sumFrom? d e []) = some (e, []) := by
  rw [sumFrom?]
  rfl

theorem bare_sumFrom_cons :
    bare (sumFrom? d e (l :: ls)) =
      if l.isPunct "+" then
        (bare (product? d ls)).bind fun (e₂, rest) => bare (sumFrom? d (.add e e₂) rest)
      else if l.isPunct "-" then
        (bare (product? d ls)).bind fun (e₂, rest) => bare (sumFrom? d (.subtract e e₂) rest)
      else some (e, l :: ls) := by
  rw [sumFrom?]
  split
  · cases product? d ls with
    | none => rfl
    | some out => simp [bare, Remainder.widen, Function.comp_def]
  · split
    · cases product? d ls with
      | none => rfl
      | some out => simp [bare, Remainder.widen, Function.comp_def]
    · rfl

/-! ## Products -/

theorem bare_product :
    bare (product? d ls) =
      (bare (operand? d ls)).bind fun (e, rest) => bare (productFrom? d e rest) := by
  rw [product?]
  cases operand? d ls with
  | none => rfl
  | some out => simp [bare, Remainder.after, Function.comp_def]

theorem bare_productFrom_nil : bare (productFrom? d e []) = some (e, []) := by
  rw [productFrom?]
  rfl

theorem bare_productFrom_cons :
    bare (productFrom? d e (l :: ls)) =
      if l.isPunct "*" then
        (bare (operand? d ls)).bind fun (e₂, rest) => bare (productFrom? d (.multiply e e₂) rest)
      else some (e, l :: ls) := by
  rw [productFrom?]
  split
  · cases operand? d ls with
    | none => rfl
    | some out => simp [bare, Remainder.widen, Function.comp_def]
  · rfl

/-! ## Operands and primary expressions -/

theorem bare_operand_nil : bare (operand? d []) = none := by
  rw [operand?]
  rfl

theorem bare_primary_nil : bare (primary? d []) = none := by
  rw [primary?]
  rfl

theorem bare_operand_cons :
    bare (operand? d (l :: ls)) =
      if l.isPunct "-" then
        (bare (operand? d ls)).map fun (e, rest) => (.negate e, rest)
      else if l.isPunct "+" then bare (operand? d ls)
      else
        match d.castWidth? (l :: ls) with
        | some width =>
          (bare (operand? d (ls.drop (width - 1)))).map fun (e, rest) =>
            (.cast ((l :: ls).take width) e, rest)
        | none => bare (primary? d (l :: ls)) := by
  rw [operand?]
  split
  · simp [bare, Rest.cons, Function.comp_def]
  · split
    · simp [bare, Rest.cons, Function.comp_def]
    · cases d.castWidth? (l :: ls) with
      | some width => simp [bare, Rest.widen, Function.comp_def]
      | none => rfl

/-- The end of a conversion without the bound on the length of the rest. -/
def bareEnd (ls : List Lexeme) : Option (List Lexeme) :=
  (conversionEnd? ls).map Subtype.val

theorem bareEnd_cons :
    bareEnd (l :: ls) =
      if l.isPunct ")" then some ls
      else if l.isPunct "," then (BracketPair.parens.untilClose 0 (l :: ls)).map Prod.snd
      else none := by
  rw [bareEnd, conversionEnd?]
  split
  · rfl
  · split
    · split
      · rename_i h
        simp [h]
      · rename_i h
        simp [h]
    · rfl

theorem bare_primary_cons :
    bare (primary? d (l :: ls)) =
      if l.kind = .number then some (.literal l.text, ls)
      else if l.isPunct "(" then
        (bare (sum? d ls)).bind fun (e, rest) =>
          if startsWithPunct ")" rest then some (e, rest.tail) else none
      else if l.isIdent then
        if startsWithPunct "(" ls && d.isConversion l.text then
          (bare (sum? d ls.tail)).bind fun (e, rest) =>
            (bareEnd rest).map fun rest => (.convert l.text e, rest)
        else some (.constant l.text, ls)
      else none := by
  rw [primary?.eq_def]
  dsimp only
  split
  · rfl
  · split
    · cases hsum : sum? d ls with
      | none => rfl
      | some out =>
        obtain ⟨e, ⟨rest, h⟩⟩ := out
        cases rest with
        | nil => rfl
        | cons close rest =>
          cases hclose : close.isPunct ")" with
          | false => simp [bare, startsWithPunct, hclose]
          | true => simp [bare, startsWithPunct, hclose, Rest.cons, Rest.trans, Rest.tail]
    · split
      · cases ls with
        | nil => rfl
        | cons opening inside =>
          rw [startsWithPunct_cons, List.tail_cons]
          cases hconversion : opening.isPunct "(" && d.isConversion l.text with
          | false => simp [hconversion, bare, Rest.tail]
          | true =>
            cases hsum : sum? d inside with
            | none => simp [hconversion, hsum, bare]
            | some out =>
              simp [hconversion, hsum, bare, bareEnd, Rest.cons, Rest.trans, Function.comp_def]
      · rfl

end ZeroAlloc.SizeExpr

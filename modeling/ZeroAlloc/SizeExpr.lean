import ZeroAlloc.Bracket
import ZeroAlloc.Integer
import ZeroAlloc.Lexeme
set_option autoImplicit false

/-! # Size expressions

The expressions whose value is known without running the program: literals, names of constants,
signs, parentheses, casts and conversions, sums, differences and products. The grammar is

    sum     ::= product (('+' | '-') product)*
    product ::= operand ('*' operand)*
    operand ::= '-' operand | '+' operand | cast operand | primary
    primary ::= literal | '(' sum ')' | conversion '(' sum [',' …] ')' | name

A cast is taken wherever the dialect sees one, and a conversion wherever its name stands before a
bracket. What follows the first argument of a conversion, such as the target type, is passed
over. What the languages spell differently, integer literals, casts, conversions and the case of
names, is told by a dialect. -/

namespace ZeroAlloc

/-! ## Dialects -/

/-- The language-dependent part of size expressions. -/
structure Dialect where
  /-- The value of an integer literal; none for other numbers. -/
  literal? : String → Option Int
  /-- The number of lexemes of the numeric cast that a row starts with. -/
  castWidth? : List Lexeme → Option Nat
  /-- Whether a call of the name gives its first argument back as a number. -/
  isConversion : String → Bool
  /-- The form of a name in which equal names are equal texts. -/
  canonicalName : String → String

/-- The characters without the last ones that satisfy the test. -/
def dropTrailing (p : Char → Bool) (cs : List Char) : List Char :=
  (cs.reverse.dropWhile p).reverse

/-! ## Expressions -/

/-- An expression for the size of an array dimension. -/
inductive SizeExpr where
  | literal (text : String)
  | constant (name : String)
  | negate (e : SizeExpr)
  | cast (marks : List Lexeme) (e : SizeExpr)
  | convert (name : String) (e : SizeExpr)
  | add (e₁ e₂ : SizeExpr)
  | subtract (e₁ e₂ : SizeExpr)
  | multiply (e₁ e₂ : SizeExpr)
  deriving DecidableEq

namespace SizeExpr

/-! ## Reading -/

/-- What follows an expression that a row starts with: a shorter row. -/
abbrev Rest (ls : List Lexeme) := { rest : List Lexeme // rest.length < ls.length }

/-- What follows more of an expression: a row that is not longer. -/
abbrev Remainder (ls : List Lexeme) := { rest : List Lexeme // rest.length ≤ ls.length }

/-- A rest of a shorter row. -/
def Rest.widen {ls more : List Lexeme} (rest : Rest more) (h : more.length ≤ ls.length) : Rest ls :=
  ⟨rest.val, Nat.lt_of_lt_of_le rest.property h⟩

/-- A remainder of a shorter row. -/
def Remainder.widen {ls more : List Lexeme} (rest : Remainder more)
    (h : more.length ≤ ls.length) : Remainder ls :=
  ⟨rest.val, Nat.le_trans rest.property h⟩

/-- A remainder of the rest of a row. -/
def Remainder.after {ls : List Lexeme} {rest : List Lexeme} (r : Remainder rest)
    (h : rest.length < ls.length) : Rest ls :=
  ⟨r.val, Nat.lt_of_le_of_lt r.property h⟩

/-- What follows the first lexeme. -/
def Rest.tail (l : Lexeme) (ls : List Lexeme) : Rest (l :: ls) := ⟨ls, Nat.lt_succ_self _⟩

/-- A rest of the tail, as a rest of the row. -/
def Rest.cons {l : Lexeme} {ls : List Lexeme} (rest : Rest ls) : Rest (l :: ls) :=
  ⟨rest.val, Nat.lt_succ_of_lt rest.property⟩

/-- A rest of the rest of a row. -/
def Rest.trans {ls : List Lexeme} (rest : Rest ls) (more : Rest rest.val) : Rest ls :=
  ⟨more.val, Nat.lt_trans more.property rest.property⟩

/-- The rest behind the bracket that closes a conversion, which may hold more than its argument. -/
def conversionEnd? : (ls : List Lexeme) → Option (Rest ls)
  | [] => none
  | l :: ls =>
    if l.isPunct ")" then some ⟨ls, by simp⟩
    else if l.isPunct "," then
      match h : BracketPair.parens.untilClose 0 (l :: ls) with
      | some (_, rest) =>
        some ⟨rest, by
          obtain ⟨_, _, he⟩ := BracketPair.eq_append_of_untilClose h
          rw [he]
          simp
          omega⟩
      | none => none
    else none

mutual

/-- The sum that the row starts with. -/
def sum? (d : Dialect) (ls : List Lexeme) : Option (SizeExpr × Rest ls) :=
  match product? d ls with
  | some (e, ⟨rest, h⟩) => (sumFrom? d e rest).map fun (e, r) => (e, r.after h)
  | none => none
termination_by (ls.length, 4)

/-- The sum that starts with `e` and goes on with the row. -/
def sumFrom? (d : Dialect) (e : SizeExpr) (ls : List Lexeme) : Option (SizeExpr × Remainder ls) :=
  match ls with
  | [] => some (e, ⟨[], by simp⟩)
  | l :: more =>
    if l.isPunct "+" then
      match product? d more with
      | some (e₂, ⟨rest, h⟩) =>
        (sumFrom? d (.add e e₂) rest).map fun (e, r) => (e, r.widen (by simp; omega))
      | none => none
    else if l.isPunct "-" then
      match product? d more with
      | some (e₂, ⟨rest, h⟩) =>
        (sumFrom? d (.subtract e e₂) rest).map fun (e, r) => (e, r.widen (by simp; omega))
      | none => none
    else some (e, ⟨l :: more, by simp⟩)
termination_by (ls.length, 5)

/-- The product that the row starts with. -/
def product? (d : Dialect) (ls : List Lexeme) : Option (SizeExpr × Rest ls) :=
  match operand? d ls with
  | some (e, ⟨rest, h⟩) => (productFrom? d e rest).map fun (e, r) => (e, r.after h)
  | none => none
termination_by (ls.length, 3)

/-- The product that starts with `e` and goes on with the row. -/
def productFrom? (d : Dialect) (e : SizeExpr) (ls : List Lexeme) :
    Option (SizeExpr × Remainder ls) :=
  match ls with
  | [] => some (e, ⟨[], by simp⟩)
  | l :: more =>
    if l.isPunct "*" then
      match operand? d more with
      | some (e₂, ⟨rest, h⟩) =>
        (productFrom? d (.multiply e e₂) rest).map fun (e, r) => (e, r.widen (by simp; omega))
      | none => none
    else some (e, ⟨l :: more, by simp⟩)
termination_by (ls.length, 5)

/-- The operand that the row starts with. -/
def operand? (d : Dialect) (ls : List Lexeme) : Option (SizeExpr × Rest ls) :=
  match ls with
  | [] => none
  | l :: more =>
    if l.isPunct "-" then
      (operand? d more).map fun (e, rest) => (.negate e, rest.cons)
    else if l.isPunct "+" then
      (operand? d more).map fun (e, rest) => (e, rest.cons)
    else
      match d.castWidth? (l :: more) with
      | some width =>
        (operand? d (more.drop (width - 1))).map fun (e, rest) =>
          (.cast ((l :: more).take width) e, rest.widen (by simp; omega))
      | none => primary? d (l :: more)
termination_by (ls.length, 2)

/-- The primary expression that the row starts with. -/
def primary? (d : Dialect) (ls : List Lexeme) : Option (SizeExpr × Rest ls) :=
  match ls with
  | [] => none
  | l :: more =>
    if l.kind = .number then some (.literal l.text, .tail l more)
    else if l.isPunct "(" then
      match sum? d more with
      | some (e, ⟨close :: rest, h⟩) =>
        if close.isPunct ")" then some (e, (Rest.trans ⟨close :: rest, h⟩ (.tail close rest)).cons)
        else none
      | _ => none
    else if l.isIdent then
      match more with
      | opening :: inside =>
        if opening.isPunct "(" && d.isConversion l.text then
          match sum? d inside with
          | some (e, rest) =>
            (conversionEnd? rest.val).map fun last =>
              (.convert l.text e, (rest.trans last).cons.cons)
          | none => none
        else some (.constant l.text, .tail l (opening :: inside))
      | [] => some (.constant l.text, .tail l [])
    else none
termination_by (ls.length, 1)

end

/-- The expression that a row of lexemes spells. -/
def parse? (d : Dialect) (ls : List Lexeme) : Option SizeExpr :=
  match sum? d ls with
  | some (e, ⟨[], _⟩) => some e
  | _ => none

/-! ## Evaluation -/

/-- The value of an expression, given the values of constants. Every literal and every intermediate
result has to be represented; casts and conversions change nothing. -/
def eval? (d : Dialect) (value? : String → Option Int) : SizeExpr → Option Int
  | literal text => d.literal? text
  | constant name => value? name
  | negate e => (e.eval? d value?).bind fun n => Integer.bounded (-n)
  | cast _ e => e.eval? d value?
  | convert _ e => e.eval? d value?
  | add e₁ e₂ =>
    (e₁.eval? d value?).bind fun n => (e₂.eval? d value?).bind fun m => Integer.bounded (n + m)
  | subtract e₁ e₂ =>
    (e₁.eval? d value?).bind fun n => (e₂.eval? d value?).bind fun m => Integer.bounded (n - m)
  | multiply e₁ e₂ =>
    (e₁.eval? d value?).bind fun n => (e₂.eval? d value?).bind fun m => Integer.bounded (n * m)

end SizeExpr

end ZeroAlloc

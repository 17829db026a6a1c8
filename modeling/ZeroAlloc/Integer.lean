set_option autoImplicit false

/-! # Bounded integers and their digits

Sizes are computed with integers of 128 bits; a result that does not fit is no result. Digits may be
separated by underscores and preceded by one sign. -/

namespace ZeroAlloc.Integer

/-- The least integer that is represented, minus two to the power of 127. -/
def least : Int := -170141183460469231731687303715884105728

/-- The greatest integer that is represented, one less than two to the power of 127. -/
def greatest : Int := 170141183460469231731687303715884105727

/-- The integer, if it is represented. -/
def bounded (n : Int) : Option Int :=
  if least ≤ n ∧ n ≤ greatest then some n else none

/-- The value of a digit below the radix. -/
def digit? (radix : Nat) (c : Char) : Option Nat :=
  let value :=
    if c.isDigit then c.toNat - '0'.toNat
    else if 'a' ≤ c.toLower && c.toLower ≤ 'z' then c.toLower.toNat - 'a'.toNat + 10
    else radix
  if value < radix then some value else none

/-- The value of a row of digits that follow `value`. -/
def digitsFrom? (radix : Nat) (value : Nat) : List Char → Option Nat
  | [] => some value
  | c :: cs =>
    match digit? radix c with
    | some d => digitsFrom? radix (value * radix + d) cs
    | none => none

/-- The value of at least one digit. -/
def magnitude? (radix : Nat) (cs : List Char) : Option Nat :=
  if cs.isEmpty then none else digitsFrom? radix 0 cs

/-- The integer that a sign and digits spell. -/
def signed? (radix : Nat) (cs : List Char) : Option Int :=
  match cs with
  | '-' :: digits => (magnitude? radix digits).map fun n => -(n : Int)
  | '+' :: digits => (magnitude? radix digits).map Int.ofNat
  | digits => (magnitude? radix digits).map Int.ofNat

/-- The integer that the characters spell, with separators between digits. -/
def ofDigits? (radix : Nat) (cs : List Char) : Option Int :=
  (signed? radix (cs.filter (· ≠ '_'))).bind bounded

theorem bounded_eq_some_iff {n m : Int} :
    bounded n = some m ↔ n = m ∧ least ≤ n ∧ n ≤ greatest := by
  unfold bounded
  split
  · simp_all
  · rename_i h
    constructor
    · intro hn
      cases hn
    · rintro ⟨rfl, hn⟩
      exact absurd hn h

end ZeroAlloc.Integer

import ZeroAlloc.Lexeme
import ZeroAlloc.SizeExpr
set_option autoImplicit false

/-! # Constants and their folding

The constants that a file declares, with the lexemes of their definitions. Of several declarations
of a name the first one counts.

The value of a size expression in a file, where a name stands for the definition of the constant
that the file declares under it. Definitions may use further constants, up to a fixed depth; so a
constant that is defined through itself has no value. -/

namespace ZeroAlloc

/-! ## Named constants -/

/-- Constants with distinct names, in the order of their first declarations. -/
abbrev Constants := List (String × List Lexeme)

namespace Constants

/-- The definition of a name. -/
def get? (constants : Constants) (name : String) : Option (List Lexeme) :=
  constants.lookup name

/-- Record a declaration. -/
def declare (constants : Constants) (name : String) (definition : List Lexeme) : Constants :=
  if (constants.get? name).isSome then constants else constants ++ [(name, definition)]

/-- The constants of a row of declarations. -/
def ofDeclarations (declarations : List (String × List Lexeme)) : Constants :=
  declarations.foldl (fun constants (name, definition) => constants.declare name definition) []

theorem get?_declare_self (constants : Constants) (name : String) (definition : List Lexeme) :
    (constants.declare name definition).get? name =
      some ((constants.get? name).getD definition) := by
  unfold declare
  cases h : constants.get? name with
  | some d => simp [h]
  | none =>
    simp only [get?] at h
    simp [get?, List.lookup_append, h]

theorem get?_declare_of_ne (constants : Constants) {name other : String} (h : other ≠ name)
    (definition : List Lexeme) :
    (constants.declare name definition).get? other = constants.get? other := by
  unfold declare
  split
  · rfl
  · simp [get?, List.lookup_append, List.lookup_cons, beq_false_of_ne h]

end Constants

/-! ## Folding -/

/-- How many definitions deep a name may lead. -/
def maxConstantDepth : Nat := 16

/-- The value of an expression whose names may lead through fewer than `levels` definitions. -/
def foldWithin (d : Dialect) (constants : Constants) : Nat → List Lexeme → Option Int
  | 0, _ => none
  | levels + 1, ls =>
    (SizeExpr.parse? d ls).bind
      (SizeExpr.eval? d fun name =>
        (constants.get? (d.canonicalName name)).bind (foldWithin d constants levels))

/-- The value of an expression, if it is a constant that can be told from the file alone. -/
def fold (d : Dialect) (constants : Constants) (ls : List Lexeme) : Option Int :=
  foldWithin d constants (maxConstantDepth + 1) ls

end ZeroAlloc

import ZeroAlloc.Lexeme
set_option autoImplicit false

/-! # Places in a row of lexemes

A place is given by the lexemes before it, nearest first, and those from it on. What is recognised
at a place may depend on both. -/

namespace ZeroAlloc

/-- What is recognised at each place of a row, in order. -/
def atEachPlace {α : Type} (recognise : List Lexeme → List Lexeme → List α) (before : List Lexeme) :
    List Lexeme → List α
  | [] => []
  | l :: ls => recognise before (l :: ls) ++ atEachPlace recognise (l :: before) ls

/-- Whether the first lexeme has one of the given texts. -/
def startsWithText (texts : List String) (ls : List Lexeme) : Bool :=
  ls.head?.any fun l => texts.contains l.text

/-- Whether the first lexeme is the punctuation `p`. -/
def startsWithPunct (p : String) (ls : List Lexeme) : Bool :=
  ls.head?.any (·.isPunct p)

theorem startsWithPunct_cons (p : String) (l : Lexeme) (ls : List Lexeme) :
    startsWithPunct p (l :: ls) = l.isPunct p := rfl

/-- Whether the first lexeme is a name or keyword. -/
def startsWithIdent (ls : List Lexeme) : Bool :=
  ls.head?.any Lexeme.isIdent

/-- The lexemes of a definition, up to the first one that ends it. Whether one ends it may depend on
the number of round brackets that it stands in. -/
def definition (ends : Nat → Lexeme → Bool) (depth : Nat) :
    List Lexeme → List Lexeme × List Lexeme
  | [] => ([], [])
  | l :: ls =>
    if ends depth l then ([], l :: ls)
    else
      let depth := if l.isPunct "(" then depth + 1 else if l.isPunct ")" then depth - 1 else depth
      let (more, rest) := definition ends depth ls
      (l :: more, rest)

theorem length_definition_le (ends : Nat → Lexeme → Bool) (depth : Nat) (ls : List Lexeme) :
    (definition ends depth ls).2.length ≤ ls.length := by
  induction ls generalizing depth with
  | nil => simp [definition]
  | cons l ls ih =>
    rw [definition]
    split
    · simp
    · exact Nat.le_succ_of_le (ih _)

end ZeroAlloc

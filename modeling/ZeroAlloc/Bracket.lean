import ZeroAlloc.Lexeme
set_option autoImplicit false

/-! # Brackets and comma-separated lists

Groups in a row of lexemes: a bracket, its contents and the bracket that closes it. Only brackets of
the same pair nest; all others count as contents. Looking for the bracket around a place is the same
search in the reversed row with the pair turned around.

In a bracketed list, commas inside round, square or curly brackets do not separate; a closing
bracket without an opening one is passed over. Parameter lists also nest in angle brackets. -/

namespace ZeroAlloc

/-- An opening and a closing bracket. -/
structure BracketPair where
  opening : String
  closing : String
  deriving DecidableEq

namespace BracketPair

def parens : BracketPair := ⟨"(", ")"⟩
def squares : BracketPair := ⟨"[", "]"⟩
def braces : BracketPair := ⟨"\x7b", "\x7d"⟩

/-- The pair read backwards. -/
def flip (b : BracketPair) : BracketPair := ⟨b.closing, b.opening⟩

/-- The lexemes before the bracket that closes a group, and those behind it, inside `depth` further
groups of the same pair. -/
def untilClose (b : BracketPair) (depth : Nat) :
    List Lexeme → Option (List Lexeme × List Lexeme)
  | [] => none
  | l :: ls =>
    if l.isPunct b.opening then
      (b.untilClose (depth + 1) ls).map fun (inside, rest) => (l :: inside, rest)
    else if l.isPunct b.closing then
      match depth with
      | 0 => some ([], ls)
      | depth + 1 => (b.untilClose depth ls).map fun (inside, rest) => (l :: inside, rest)
    else
      (b.untilClose depth ls).map fun (inside, rest) => (l :: inside, rest)

/-- The contents of the group that the row starts with, and the lexemes behind it. -/
def group? (b : BracketPair) : List Lexeme → Option (List Lexeme × List Lexeme)
  | [] => none
  | l :: ls => if l.isPunct b.opening then b.untilClose 0 ls else none

/-- The lexemes between the bracket around a place and the place, and those before the bracket,
nearest first. The place is given by the lexemes before it, nearest first. -/
def enclosing? (b : BracketPair) (before : List Lexeme) : Option (List Lexeme × List Lexeme) :=
  (b.flip.untilClose 0 before).map fun (between, outside) => (between.reverse, outside)

theorem eq_append_of_untilClose {b : BracketPair} {depth : Nat} {ls inside rest : List Lexeme}
    (h : b.untilClose depth ls = some (inside, rest)) :
    ∃ close, close.isPunct b.closing = true ∧ ls = inside ++ close :: rest := by
  induction ls generalizing depth inside with
  | nil => simp [untilClose] at h
  | cons l ls ih =>
    unfold untilClose at h
    split at h
    · obtain ⟨⟨i, r⟩, hi, he⟩ := Option.map_eq_some_iff.1 h
      cases he
      obtain ⟨c, hc, rfl⟩ := ih hi
      exact ⟨c, hc, rfl⟩
    · split at h
      · rename_i hclose
        split at h
        · cases h
          exact ⟨l, hclose, rfl⟩
        · obtain ⟨⟨i, r⟩, hi, he⟩ := Option.map_eq_some_iff.1 h
          cases he
          obtain ⟨c, hc, rfl⟩ := ih hi
          exact ⟨c, hc, rfl⟩
      · obtain ⟨⟨i, r⟩, hi, he⟩ := Option.map_eq_some_iff.1 h
        cases he
        obtain ⟨c, hc, rfl⟩ := ih hi
        exact ⟨c, hc, rfl⟩

/-- A group is its two brackets around its contents. -/
theorem eq_append_of_group {b : BracketPair} {ls inside rest : List Lexeme}
    (h : b.group? ls = some (inside, rest)) :
    ∃ opening close, opening.isPunct b.opening = true ∧ close.isPunct b.closing = true ∧
      ls = opening :: inside ++ close :: rest := by
  cases ls with
  | nil => simp [group?] at h
  | cons l ls =>
    rw [group?] at h
    split at h
    · rename_i hopen
      obtain ⟨c, hc, rfl⟩ := eq_append_of_untilClose h
      exact ⟨l, c, hopen, hc, rfl⟩
    · cases h

/-- What follows a group is shorter than the row that starts with it. -/
theorem length_lt_of_group {b : BracketPair} {ls inside rest : List Lexeme}
    (h : b.group? ls = some (inside, rest)) : rest.length < ls.length := by
  obtain ⟨_, _, _, _, rfl⟩ := eq_append_of_group h
  simp
  omega

end BracketPair

/-! ## Comma-separated lists -/

/-- Whether the lexeme opens a round, square or curly bracket. -/
def Lexeme.opensGroup (l : Lexeme) : Bool :=
  l.isPunct "(" || l.isPunct "[" || l.isPunct "\x7b"

/-- Whether the lexeme closes a round, square or curly bracket. -/
def Lexeme.closesGroup (l : Lexeme) : Bool :=
  l.isPunct ")" || l.isPunct "]" || l.isPunct "\x7d"

/-- Put a lexeme in front of the first piece. -/
def consFirst (l : Lexeme) : List (List Lexeme) → List (List Lexeme)
  | [] => [[l]]
  | piece :: pieces => (l :: piece) :: pieces

/-- The pieces between the commas that are `depth` brackets out. -/
def splitCommas (depth : Nat) : List Lexeme → List (List Lexeme)
  | [] => [[]]
  | l :: ls =>
    if l.opensGroup then consFirst l (splitCommas (depth + 1) ls)
    else if l.closesGroup then consFirst l (splitCommas (depth - 1) ls)
    else if l.isPunct "," && depth == 0 then [] :: splitCommas 0 ls
    else consFirst l (splitCommas depth ls)

/-- The number of arguments in an argument list; line breaks alone are no argument. -/
def argumentCount (inside : List Lexeme) : Nat :=
  if inside.all Lexeme.isNewline then 0 else (splitCommas 0 inside).length

/-- The number of commas, at most `depth` brackets in, before a parameter. -/
def commasBefore (depth : Nat) : List Lexeme → Nat
  | [] => 0
  | l :: ls =>
    if l.opensGroup || l.isPunct "<" then commasBefore (depth + 1) ls
    else if l.closesGroup || l.isPunct ">" then commasBefore (depth - 1) ls
    else if l.isPunct "," && depth == 0 then commasBefore depth ls + 1
    else commasBefore depth ls

/-- The lexemes without line breaks, which mean nothing inside brackets. -/
def withoutNewlines (ls : List Lexeme) : List Lexeme :=
  ls.filter fun l => !l.isNewline

theorem splitCommas_ne_nil (depth : Nat) (ls : List Lexeme) : splitCommas depth ls ≠ [] := by
  have hcons (l : Lexeme) (ps : List (List Lexeme)) : consFirst l ps ≠ [] := by
    cases ps <;> simp [consFirst]
  cases ls with
  | nil => simp [splitCommas]
  | cons l ls =>
    rw [splitCommas]
    split
    · exact hcons _ _
    · split
      · exact hcons _ _
      · split
        · simp
        · exact hcons _ _

end ZeroAlloc

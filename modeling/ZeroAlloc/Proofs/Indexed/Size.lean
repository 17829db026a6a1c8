import ZeroAlloc.Proofs.Indexed.Fold
import ZeroAlloc.Proofs.Indexed.Text
import ZeroAlloc.Proofs.Fold
set_option autoImplicit false

/-! # Array sizes by indices

The length of an array in each language. A bound of Visual Basic is cut at the word `To`, and a
literal behind the letter that tells its radix; both cuts lie inside what is cut
(`lengthAt_eq`). -/

namespace ZeroAlloc.Indexed

open Attempt (ofOption)

/-- The lexemes before an index. -/
def rowUpTo (ls : List Lexeme) (i : Nat) : Attempt (List Lexeme) :=
  if i ≤ ls.length then .done (ls.take i) else .fault .index

theorem rowUpTo_eq_done {ls : List Lexeme} {i : Nat} (hi : i ≤ ls.length) :
    rowUpTo ls i = .done (ls.take i) := if_pos hi

/-- A length, which is not negative. -/
def natural (n : Int) : Attempt Int :=
  if 0 ≤ n then pure n else .absent

theorem natural_eq (n : Int) : natural n = ofOption ((some n).filter (0 ≤ ·)) := by
  by_cases hn : 0 ≤ n <;> simp [natural, Option.filter, hn]

namespace CSharp

open ZeroAlloc.CSharp (dialect castWidth? dottedName?)

/-- The length that a size stands for. -/
def lengthAt (constants : Constants) (size : List Lexeme) : Attempt Int := do
  let n ← foldAt dialect (ofOption ∘ dialect.literal?) constants (maxConstantDepth + 1) size
  natural n

theorem length_of_dottedName {ls rest : List Lexeme} {last : String} {width : Nat}
    (h : dottedName? ls = some (last, width, rest)) : width + rest.length = ls.length := by
  fun_induction dottedName? ls generalizing last width rest with
  | case1 => cases h
  | case2 l hident =>
    cases h
    rfl
  | case3 l hident => cases h
  | case4 => cases h
  | case5 l dot ls hident hdot ih =>
    obtain ⟨⟨last', width', rest'⟩, hmore, he⟩ := Option.map_eq_some_iff.1 h
    cases he
    have := ih hmore
    simp only [List.length_cons]
    omega
  | case6 l dot ls hident hdot =>
    cases h
    simp only [List.length_cons]
    omega

theorem castsInRow : dialect.CastsInRow := by
  intro ls width h
  change castWidth? ls = some width at h
  unfold castWidth? at h
  split at h
  · cases h
  · split at h
    · split at h
      · rename_i hname
        split at h
        · cases h
          have := length_of_dottedName hname
          simp only [List.length_cons] at this ⊢
          omega
        · cases h
      · cases h
    · cases h

theorem lengthAt_eq (constants : Constants) (size : List Lexeme) :
    lengthAt constants size = ofOption (ZeroAlloc.CSharp.length? constants size) := by
  rw [lengthAt, foldAt_eq ZeroAlloc.CSharp.castsInBrackets castsInRow]
  change (ofOption (fold dialect constants size) >>= natural) = _
  rw [ZeroAlloc.CSharp.length?]
  cases fold dialect constants size with
  | none => rfl
  | some n => exact natural_eq n

end CSharp

namespace VisualBasic

open ZeroAlloc.VisualBasic (dialect isIntegralSuffix isFractionalSuffix isTo)

/-- The radix that a letter behind an ampersand stands for. -/
def radix? (c : Char) : Option Nat :=
  if c = 'h' then some 16 else if c = 'o' then some 8 else if c = 'b' then some 2 else none

/-- The value of an integer literal. -/
def literalAt (text : String) : Attempt Int :=
  match text.toList.map Char.toLower with
  | '&' :: rest => do
    let letter ← ofOption rest.head?
    let radix ← ofOption (radix? letter)
    let digits ← textFrom rest 1
    ofOption (Integer.ofDigits? radix (dropTrailing isIntegralSuffix digits))
  | digits =>
    if digits.getLast?.any isFractionalSuffix then .absent
    else ofOption (Integer.ofDigits? 10 (dropTrailing isIntegralSuffix digits))

/-- The value of an expression. -/
def valueAt (constants : Constants) (ls : List Lexeme) : Attempt Int :=
  foldAt dialect literalAt constants (maxConstantDepth + 1) ls

/-- The greatest index that a bound stands for. -/
def upperBoundAt (constants : Constants) (bound : List Lexeme) : Attempt Int :=
  match bound.findIdx? isTo with
  | none => valueAt constants bound
  | some mark => do
    let lower ← rowUpTo bound mark
    let least ← valueAt constants lower
    if least = 0 then do
      let upper ← rowFrom bound (mark + 1)
      valueAt constants upper
    else .absent

/-- The length that a bound stands for. -/
def lengthAt (constants : Constants) (bound : List Lexeme) : Attempt Int := do
  let upper ← upperBoundAt constants bound
  let n ← ofOption (Integer.bounded (upper + 1))
  natural n

theorem radix?_eq_some {c : Char} {radix : Nat} (h : radix? c = some radix) :
    c = 'h' ∧ radix = 16 ∨ c = 'o' ∧ radix = 8 ∨ c = 'b' ∧ radix = 2 := by
  unfold radix? at h
  split at h
  · cases h
    exact .inl ⟨by assumption, rfl⟩
  · split at h
    · cases h
      exact .inr (.inl ⟨by assumption, rfl⟩)
    · split at h
      · cases h
        exact .inr (.inr ⟨by assumption, rfl⟩)
      · cases h

theorem literalAt_eq (text : String) : literalAt text = ofOption (dialect.literal? text) := by
  change _ = ofOption (ZeroAlloc.VisualBasic.literal? text)
  rw [literalAt, ZeroAlloc.VisualBasic.literal?]
  split
  · rename_i rest htext
    rw [htext]
    cases rest with
    | nil => rfl
    | cons letter digits =>
      rw [List.head?_cons, Attempt.ofOption_some, Attempt.done_bind]
      cases hradix : radix? letter with
      | none =>
        unfold radix? at hradix
        split <;> simp_all
      | some radix =>
        have hdigits (hbyte : Text.byteLength [letter] = 1) :
            textFrom (letter :: digits) 1 = .done digits := by
          rw [← hbyte]
          exact textFrom_append [letter] digits
        rw [Attempt.ofOption_some, Attempt.done_bind]
        -- each of the letters is one byte long
        rcases radix?_eq_some hradix with ⟨rfl, rfl⟩ | ⟨rfl, rfl⟩ | ⟨rfl, rfl⟩
        · rw [hdigits (by decide)]
          rfl
        · rw [hdigits (by decide)]
          rfl
        · rw [hdigits (by decide)]
          rfl
  · split <;> simp_all

theorem valueAt_eq (constants : Constants) (ls : List Lexeme) :
    valueAt constants ls = ofOption (fold dialect constants ls) := by
  have hliteral : literalAt = ofOption ∘ dialect.literal? := funext literalAt_eq
  have hcasts : dialect.CastsInRow := fun _ _ h => nomatch h
  rw [valueAt, hliteral, foldAt_eq ZeroAlloc.VisualBasic.castsInBrackets hcasts]
  rfl

theorem upperBoundAt_eq (constants : Constants) (bound : List Lexeme) :
    upperBoundAt constants bound =
      ofOption (ZeroAlloc.VisualBasic.upperBound? constants bound) := by
  rw [upperBoundAt, ZeroAlloc.VisualBasic.upperBound?, List.dropWhile_eq_drop_findIdx_not,
    List.takeWhile_eq_take_findIdx_not]
  simp only [Bool.not_not]
  cases hmark : bound.findIdx? isTo with
  | none =>
    have hend := List.findIdx_eq_length.2 (List.findIdx?_eq_none_iff.1 hmark)
    rw [hend, List.drop_length]
    exact valueAt_eq constants bound
  | some mark =>
    obtain ⟨hlt, rfl⟩ := List.findIdx?_eq_some_iff_findIdx_eq.1 hmark
    rw [List.drop_eq_getElem_cons hlt]
    dsimp only
    rw [rowUpTo_eq_done (Nat.le_of_lt hlt), Attempt.done_bind, valueAt_eq]
    cases fold dialect constants (bound.take (bound.findIdx isTo)) with
    | none => rfl
    | some least =>
      rw [Attempt.ofOption_some, Attempt.done_bind, rowFrom_eq_done hlt, Attempt.done_bind,
        valueAt_eq]
      by_cases hleast : least = 0
      · rw [if_pos hleast, if_pos (congrArg some hleast)]
      · rw [if_neg hleast, if_neg fun h => hleast (Option.some.inj h)]
        rfl

theorem lengthAt_eq (constants : Constants) (bound : List Lexeme) :
    lengthAt constants bound = ofOption (ZeroAlloc.VisualBasic.length? constants bound) := by
  rw [lengthAt, upperBoundAt_eq, ZeroAlloc.VisualBasic.length?]
  cases ZeroAlloc.VisualBasic.upperBound? constants bound with
  | none => rfl
  | some upper =>
    rw [Attempt.ofOption_some, Attempt.done_bind, Option.bind_some]
    cases Integer.bounded (upper + 1) with
    | none => rfl
    | some n => exact natural_eq n

end VisualBasic

/-- The length of an array dimension whose size is written so. -/
def lengthAt : Language → Constants → List Lexeme → Attempt Int
  | .csharp => CSharp.lengthAt
  | .visualBasic => VisualBasic.lengthAt

/-- Telling the length of an array does not fail. -/
theorem lengthAt_eq (language : Language) (constants : Constants) (size : List Lexeme) :
    lengthAt language constants size = ofOption (language.length? constants size) := by
  cases language with
  | csharp => exact CSharp.lengthAt_eq constants size
  | visualBasic => exact VisualBasic.lengthAt_eq constants size

end ZeroAlloc.Indexed

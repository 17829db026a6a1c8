import Mathlib.Order.Bounds.Basic
import ZeroAlloc.Proofs.Indexed.Row
import ZeroAlloc.Proofs.Site.Backward
set_option autoImplicit false

/-! # Matching brackets

A bracket is looked for in two ways: forwards from the bracket that it closes, and backwards from a
place that it stands around. The forward search ends where the brackets balance for the first time
(`close?_eq_some_iff_isLeast`). Both searches find the same groups, those that hold a nested row
(`close?_eq_some_iff`, `open?_eq_some_iff`), so each of the two brackets of a group leads to the
other one (`searchesMatch`). -/

namespace ZeroAlloc.BracketPair

variable {b : BracketPair} {ls : List Lexeme}

/-- The index of the bracket that closes the group which starts at an index. -/
def close? (b : BracketPair) (ls : List Lexeme) (opening : Nat) : Option Nat :=
  (b.group? (ls.drop opening)).map fun g => opening + g.1.length + 1

/-- The index of the bracket around the lexeme with an index. -/
def open? (b : BracketPair) (ls : List Lexeme) (index : Nat) : Option Nat :=
  (b.enclosing? (ls.take index).reverse).map fun g => g.2.length

/-! ## The count of brackets -/

/-- From one index through another, as many brackets are opened as closed. -/
def Balances (b : BracketPair) (ls : List Lexeme) (first last : Nat) : Prop :=
  first ≤ last ∧ last < ls.length ∧
    ((ls.drop first).take (last + 1 - first)).countP (·.isPunct b.opening) =
      ((ls.drop first).take (last + 1 - first)).countP (·.isPunct b.closing)

/-- Through an index, a row that stands inside `depth + 1` groups has closed all of them. -/
def ClosesAt (b : BracketPair) (depth : Nat) (ls : List Lexeme) (i : Nat) : Prop :=
  i < ls.length ∧ depth + 1 + (ls.take (i + 1)).countP (·.isPunct b.opening) =
    (ls.take (i + 1)).countP (·.isPunct b.closing)

/-- The least number with a property that none below `k` has. -/
theorem isLeast_iff_of_add {p q : Nat → Prop} {k n : Nat} (hlow : ∀ i, p i → k ≤ i)
    (hadd : ∀ i, p (k + i) ↔ q i) :
    IsLeast {i | p i} n ↔ ∃ m, IsLeast {i | q i} m ∧ k + m = n := by
  constructor
  · rintro ⟨hn, hleast⟩
    obtain ⟨m, rfl⟩ := Nat.exists_eq_add_of_le (hlow n hn)
    refine ⟨m, ⟨(hadd m).1 hn, fun i hi => ?_⟩, rfl⟩
    exact Nat.le_of_add_le_add_left (hleast ((hadd i).2 hi))
  · rintro ⟨m, ⟨hm, hleast⟩, rfl⟩
    refine ⟨(hadd m).2 hm, fun i hi => ?_⟩
    obtain ⟨j, rfl⟩ := Nat.exists_eq_add_of_le (hlow i hi)
    exact Nat.add_le_add_left (hleast ((hadd j).1 hi)) k

/-- One lexeme of a row that is counted. -/
theorem closesAt_cons_succ (depth : Nat) (l : Lexeme) (ls : List Lexeme) (i : Nat) :
    b.ClosesAt depth (l :: ls) (i + 1) ↔
      i < ls.length ∧ depth + 1 + (ls.take (i + 1)).countP (·.isPunct b.opening) +
          (if l.isPunct b.opening = true then 1 else 0) =
        (ls.take (i + 1)).countP (·.isPunct b.closing) +
          if l.isPunct b.closing = true then 1 else 0 := by
  rw [ClosesAt, List.take_succ_cons, List.countP_cons, List.countP_cons, List.length_cons,
    Nat.add_lt_add_iff_right, ← Nat.add_assoc]

theorem closesAt_cons_zero (depth : Nat) (l : Lexeme) (ls : List Lexeme) :
    b.ClosesAt depth (l :: ls) 0 ↔
      depth + 1 + (if l.isPunct b.opening = true then 1 else 0) =
        if l.isPunct b.closing = true then 1 else 0 := by
  simp [ClosesAt, List.countP_cons]

/-- A lexeme that does not end the search leaves it to the rest of the row. -/
theorem length_untilClose_iff_of_step {depth depth' : Nat} {l : Lexeme} {ls : List Lexeme} {n : Nat}
    (hrest : ∀ n, (b.untilClose depth' ls).map (fun g => g.1.length) = some n ↔
      IsLeast {i | b.ClosesAt depth' ls i} n)
    (hzero : ¬b.ClosesAt depth (l :: ls) 0)
    (hsucc : ∀ i, b.ClosesAt depth (l :: ls) (1 + i) ↔ b.ClosesAt depth' ls i) :
    ((b.untilClose depth' ls).map fun g => (l :: g.1, g.2)).map (fun g => g.1.length) = some n ↔
      IsLeast {i | b.ClosesAt depth (l :: ls) i} n := by
  have hlow (i : Nat) (hi : b.ClosesAt depth (l :: ls) i) : 1 ≤ i :=
    Nat.pos_of_ne_zero fun h => hzero (h ▸ hi)
  rw [isLeast_iff_of_add hlow hsucc]
  simp only [← hrest, Option.map_map, Option.map_eq_some_iff, Function.comp_apply,
    List.length_cons]
  constructor
  · rintro ⟨g, hg, rfl⟩
    exact ⟨g.1.length, ⟨g, hg, rfl⟩, Nat.add_comm _ _⟩
  · rintro ⟨m, ⟨g, hg, rfl⟩, rfl⟩
    exact ⟨g, hg, Nat.add_comm _ _⟩

/-- The search for a closing bracket ends where all groups are closed for the first time. -/
theorem length_untilClose_iff (hne : b.opening ≠ b.closing) (depth : Nat) (ls : List Lexeme)
    (n : Nat) :
    (b.untilClose depth ls).map (fun g => g.1.length) = some n ↔
      IsLeast {i | b.ClosesAt depth ls i} n := by
  induction ls generalizing depth n with
  | nil => simp [untilClose, IsLeast, ClosesAt]
  | cons l ls ih =>
    have hcount (i : Nat) := b.closesAt_cons_succ depth l ls i
    have hfirst := b.closesAt_cons_zero depth l ls
    simp only [Nat.add_comm _ 1] at hcount
    rw [untilClose.eq_def]
    dsimp only
    split
    · rename_i hopen
      have hclose := isPunct_eq_false hne.symm hopen
      simp only [hopen, hclose, Bool.false_eq_true, if_true, if_false] at hcount hfirst
      refine length_untilClose_iff_of_step (ih _) (fun h => absurd (hfirst.1 h) (by omega))
        fun i => ?_
      rw [hcount, ClosesAt, Nat.add_comm i 1]
      omega
    · rename_i hopen
      split
      · rename_i hclose
        simp only [hopen, hclose, if_true, Bool.false_eq_true, if_false] at hcount hfirst
        cases depth with
        | zero =>
          have hat : b.ClosesAt 0 (l :: ls) 0 := hfirst.2 rfl
          constructor
          · intro h
            cases h
            exact ⟨hat, fun i _ => Nat.zero_le i⟩
          · rintro ⟨-, hleast⟩
            rw [Nat.le_zero.1 (hleast hat)]
            rfl
        | succ depth =>
          refine length_untilClose_iff_of_step (ih _) (fun h => absurd (hfirst.1 h) (by omega))
            fun i => ?_
          rw [hcount, ClosesAt, Nat.add_comm i 1]
          omega
      · rename_i hclose
        simp only [hopen, hclose, Bool.false_eq_true, if_false] at hcount hfirst
        refine length_untilClose_iff_of_step (ih _) (fun h => absurd (hfirst.1 h) (by omega))
          fun i => ?_
        rw [hcount, ClosesAt, Nat.add_comm i 1]
        omega

/-- From an opening bracket on, the brackets balance for the first time where it is closed. -/
theorem close?_eq_some_iff_isLeast (hne : b.opening ≠ b.closing) {o c : Nat}
    (hopen : startsWithPunct b.opening (ls.drop o) = true) :
    b.close? ls o = some c ↔ IsLeast {i | b.Balances ls o i} c := by
  cases hdrop : ls.drop o with
  | nil =>
    rw [hdrop] at hopen
    cases hopen
  | cons l row =>
    replace hopen : l.isPunct b.opening = true := by rwa [hdrop] at hopen
    have hclose := isPunct_eq_false hne.symm hopen
    have hlength := congrArg List.length hdrop
    rw [List.length_drop, List.length_cons] at hlength
    have hbalances (i : Nat) (hi : b.Balances ls o i) : o + 1 ≤ i := by
      obtain ⟨hle, -, hcount⟩ := hi
      refine Nat.lt_of_le_of_ne hle fun heq => ?_
      subst heq
      rw [hdrop, Nat.add_sub_cancel_left] at hcount
      simp [hopen, hclose] at hcount
    have hcloses (i : Nat) : b.Balances ls o (o + 1 + i) ↔ b.ClosesAt 0 row i := by
      have hcut : o + 1 + i + 1 - o = i + 1 + 1 := by omega
      rw [Balances, ClosesAt, hdrop, hcut, List.take_succ_cons, List.countP_cons,
        List.countP_cons, if_pos hopen, hclose]
      simp only [Bool.false_eq_true, if_false]
      omega
    rw [isLeast_iff_of_add hbalances hcloses, close?, hdrop, group?, if_pos hopen]
    simp only [← length_untilClose_iff hne, Option.map_eq_some_iff]
    constructor
    · rintro ⟨g, hg, rfl⟩
      exact ⟨g.1.length, ⟨g, hg, rfl⟩, by omega⟩
    · rintro ⟨m, ⟨g, hg, rfl⟩, rfl⟩
      exact ⟨g, hg, by omega⟩

/-! ## Groups -/

/-- The lexemes with two indices are brackets that hold a nested row. -/
def IsGroupAt (b : BracketPair) (ls : List Lexeme) (o c : Nat) : Prop :=
  ∃ outside opening inside close rest, ls = outside ++ opening :: (inside ++ close :: rest) ∧
    outside.length = o ∧ o + inside.length + 1 = c ∧ opening.isPunct b.opening = true ∧
      close.isPunct b.closing = true ∧ b.Nested inside

theorem close?_eq_some_iff (hne : b.opening ≠ b.closing) {o c : Nat} :
    b.close? ls o = some c ↔ b.IsGroupAt ls o c := by
  rw [close?, Option.map_eq_some_iff]
  constructor
  · rintro ⟨⟨inside, rest⟩, hgroup, rfl⟩
    obtain ⟨opening, close, hopen, hclose, hdrop⟩ := eq_append_of_group hgroup
    have hlt : o < ls.length := by
      refine Nat.lt_of_not_le fun hle => ?_
      rw [List.drop_eq_nil_of_le hle] at hdrop
      cases hdrop
    refine ⟨ls.take o, opening, inside, close, rest, ?_, ?_, rfl, hopen, hclose,
      nested_of_group hgroup⟩
    · rw [← List.cons_append, ← hdrop, List.take_append_drop]
    · rw [List.length_take, Nat.min_eq_left (Nat.le_of_lt hlt)]
  · rintro ⟨outside, opening, inside, close, rest, rfl, rfl, rfl, hopen, hclose, hinside⟩
    refine ⟨(inside, rest), ?_, rfl⟩
    rw [List.drop_left, group?, if_pos hopen, untilClose_eq_some_iff hne]
    exact ⟨close, hclose, rfl, hinside⟩

theorem open?_eq_some_iff (hne : b.opening ≠ b.closing) {o c : Nat} :
    startsWithPunct b.closing (ls.drop c) = true ∧ b.open? ls c = some o ↔ b.IsGroupAt ls o c := by
  rw [open?, enclosing?, Option.map_map, Option.map_eq_some_iff]
  constructor
  · rintro ⟨hclose, ⟨between, outside⟩, huntil, rfl⟩
    obtain ⟨opening, hopen, hbefore, hbetween⟩ := (untilClose_eq_some_iff hne.symm).1 huntil
    cases hdrop : ls.drop c with
    | nil =>
      rw [hdrop] at hclose
      cases hclose
    | cons close rest =>
      rw [hdrop] at hclose
      have htake : ls.take c = outside.reverse ++ opening :: between.reverse := by
        rw [← List.reverse_reverse (ls.take c), hbefore]
        simp
      have hlength := congrArg List.length htake
      have hlt := congrArg List.length hdrop
      simp only [List.length_take, List.length_drop, List.length_append, List.length_cons,
        List.length_reverse] at hlength hlt
      refine ⟨outside.reverse, opening, between.reverse, close, rest, ?_, List.length_reverse, ?_,
        hopen, hclose, hbetween.reverse⟩
      · rw [← List.take_append_drop c ls, htake, hdrop]
        simp
      · simp only [Function.comp_apply, List.length_reverse]
        omega
  · rintro ⟨outside, opening, inside, close, rest, rfl, rfl, rfl, hopen, hclose, hinside⟩
    have hrow : outside ++ opening :: (inside ++ close :: rest) =
        (outside ++ opening :: inside) ++ close :: rest := by simp
    have hlength : outside.length + inside.length + 1 = (outside ++ opening :: inside).length := by
      simp [Nat.add_assoc]
    rw [hrow, hlength, List.drop_left, List.take_left]
    refine ⟨hclose, (inside.reverse, outside.reverse), ?_, by simp⟩
    rw [untilClose_eq_some_iff hne.symm]
    exact ⟨opening, hopen, by simp, hinside.reverse⟩

/-- The searches for the brackets of a pair, forwards and backwards, in a row. -/
structure SearchesMatch (b : BracketPair) (ls : List Lexeme) : Prop where
  /-- The count from an opening bracket on finds what closes its group. -/
  forwards : ∀ o, startsWithPunct b.opening (ls.drop o) = true →
    Indexed.matchingClose b ls o = .ofOption (b.close? ls o)
  /-- The count back from a place finds the bracket around it. -/
  backwards : ∀ c, Indexed.enclosingOpen b ls c = .ofOption (b.open? ls c)
  /-- From an opening bracket on, the brackets balance for the first time where it is closed. -/
  least : ∀ o c, startsWithPunct b.opening (ls.drop o) = true →
    (b.close? ls o = some c ↔ IsLeast {i | b.Balances ls o i} c)
  /-- The two brackets of a group lead to each other. -/
  inverse : ∀ o c, b.close? ls o = some c ↔
    startsWithPunct b.closing (ls.drop c) = true ∧ b.open? ls c = some o
  /-- No two brackets are closed by the same one. -/
  injective : ∀ o o' c, b.close? ls o = some c → b.close? ls o' = some c → o = o'

/-- In every row, the two searches for the brackets of a pair are inverse to each other. -/
theorem searchesMatch (hne : b.opening ≠ b.closing) (ls : List Lexeme) : b.SearchesMatch ls := by
  have hinverse (o c : Nat) : b.close? ls o = some c ↔
      startsWithPunct b.closing (ls.drop c) = true ∧ b.open? ls c = some o :=
    (close?_eq_some_iff hne).trans (open?_eq_some_iff hne).symm
  refine ⟨fun o hopen => Indexed.matchingClose_eq hopen, fun c => ?_,
    fun o c hopen => close?_eq_some_iff_isLeast hne hopen, hinverse, fun o o' c h h' => ?_⟩
  · exact Indexed.enclosingOpen_eq b ls c
  · have hback := ((hinverse o c).1 h).2
    rw [((hinverse o' c).1 h').2] at hback
    exact (Option.some.inj hback).symm

/-- The row `f ( a [ ( ] ) ) (`, in which brackets of two pairs cross. -/
def crossedRow : List Lexeme :=
  [⟨.ident, "f"⟩, ⟨.punct, "("⟩, ⟨.ident, "a"⟩, ⟨.punct, "["⟩, ⟨.punct, "("⟩, ⟨.punct, "]"⟩,
    ⟨.punct, ")"⟩, ⟨.punct, ")"⟩, ⟨.punct, "("⟩]

theorem searchesMatch_crossedRow :
    parens.opening ≠ parens.closing ∧ parens.close? crossedRow 1 = some 7 ∧
      IsLeast {i | parens.Balances crossedRow 1 i} 7 ∧ parens.open? crossedRow 7 = some 1 ∧
        parens.SearchesMatch crossedRow := by
  have hne : parens.opening ≠ parens.closing := by decide
  have hmatch := searchesMatch hne crossedRow
  have hclose : parens.close? crossedRow 1 = some 7 := rfl
  exact ⟨hne, hclose, (hmatch.least 1 7 rfl).1 hclose, ((hmatch.inverse 1 7).1 hclose).2, hmatch⟩

end ZeroAlloc.BracketPair

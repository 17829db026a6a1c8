import ZeroAlloc.Bracket
set_option autoImplicit false

/-! # Nested brackets

The search for the bracket that closes a group finds it behind the longest row in which brackets of
the pair are nested (`untilClose_eq_some_iff`). So the closing bracket of a group tells which
bracket opens it (`eq_of_group_of_group`). -/

namespace ZeroAlloc.BracketPair

variable {b : BracketPair}

/-- A row in which every opening bracket of the pair has its closing one, and conversely. -/
inductive Nested (b : BracketPair) : List Lexeme → Prop where
  | nil : Nested b []
  | plain {l : Lexeme} {ls : List Lexeme} (hopen : l.isPunct b.opening = false)
      (hclose : l.isPunct b.closing = false) (h : Nested b ls) : Nested b (l :: ls)
  | group {opening close : Lexeme} {inside ls : List Lexeme}
      (hopen : opening.isPunct b.opening = true) (hinside : Nested b inside)
      (hclose : close.isPunct b.closing = true) (h : Nested b ls) :
      Nested b (opening :: (inside ++ close :: ls))

theorem Nested.append {ls more : List Lexeme} (h : b.Nested ls) (hmore : b.Nested more) :
    b.Nested (ls ++ more) := by
  induction h with
  | nil => exact hmore
  | plain hopen hclose _ ih => exact .plain hopen hclose ih
  | group hopen hinside hclose _ _ ih =>
    rw [List.cons_append, List.append_assoc, List.cons_append]
    exact .group hopen hinside hclose ih

/-- A row in which `depth` closing brackets have no opening one, and all others are nested. -/
def NestedUnder (b : BracketPair) : Nat → List Lexeme → Prop
  | 0, ls => b.Nested ls
  | depth + 1, ls => ∃ inside close rest, ls = inside ++ close :: rest ∧ b.Nested inside ∧
      close.isPunct b.closing = true ∧ NestedUnder b depth rest

namespace NestedUnder

theorem plain {depth : Nat} {l : Lexeme} {ls : List Lexeme} (hopen : l.isPunct b.opening = false)
    (hclose : l.isPunct b.closing = false) (h : b.NestedUnder depth ls) :
    b.NestedUnder depth (l :: ls) := by
  cases depth with
  | zero => exact Nested.plain hopen hclose h
  | succ depth =>
    obtain ⟨inside, close, rest, rfl, hinside, hend, hrest⟩ := h
    exact ⟨l :: inside, close, rest, rfl, .plain hopen hclose hinside, hend, hrest⟩

/-- An opening bracket takes the first of the closing ones. -/
theorem opening {depth : Nat} {l : Lexeme} {ls : List Lexeme} (hopen : l.isPunct b.opening = true)
    (h : b.NestedUnder (depth + 1) ls) : b.NestedUnder depth (l :: ls) := by
  obtain ⟨inside, close, rest, rfl, hinside, hclose, hrest⟩ := h
  cases depth with
  | zero => exact Nested.group hopen hinside hclose hrest
  | succ depth =>
    obtain ⟨inside', close', rest', rfl, hinside', hclose', hrest'⟩ := hrest
    -- the closed group joins the nested row in front of the next closing bracket
    refine ⟨l :: (inside ++ close :: inside'), close', rest', by simp, ?_, hclose', hrest'⟩
    exact .group hopen hinside hclose hinside'

end NestedUnder

theorem nestedUnder_of_untilClose {depth : Nat} {ls inside rest : List Lexeme}
    (h : b.untilClose depth ls = some (inside, rest)) : b.NestedUnder depth inside := by
  induction ls generalizing depth inside with
  | nil => simp [untilClose] at h
  | cons l ls ih =>
    unfold untilClose at h
    split at h
    · rename_i hopen
      obtain ⟨⟨i, r⟩, hi, he⟩ := Option.map_eq_some_iff.1 h
      cases he
      exact .opening hopen (ih hi)
    · rename_i hopen
      split at h
      · rename_i hclose
        cases depth with
        | zero =>
          cases h
          exact .nil
        | succ depth =>
          obtain ⟨⟨i, r⟩, hi, he⟩ := Option.map_eq_some_iff.1 h
          cases he
          exact ⟨[], l, i, rfl, .nil, hclose, ih hi⟩
      · rename_i hclose
        obtain ⟨⟨i, r⟩, hi, he⟩ := Option.map_eq_some_iff.1 h
        cases he
        exact .plain (Bool.eq_false_iff.2 hopen) (Bool.eq_false_iff.2 hclose) (ih hi)

/-- Punctuation is spelled in one way. -/
theorem isPunct_eq_false {l : Lexeme} {p q : String} (hne : p ≠ q) (h : l.isPunct q = true) :
    l.isPunct p = false := by
  simp only [Lexeme.isPunct, Bool.and_eq_true, decide_eq_true_eq, Bool.and_eq_false_iff,
    decide_eq_false_iff_not] at h ⊢
  exact .inr fun hp => hne (hp.symm.trans h.2)

/-- The search passes over a nested row. -/
theorem untilClose_append (hne : b.opening ≠ b.closing) {inside : List Lexeme}
    (h : b.Nested inside) (depth : Nat) (ls : List Lexeme) :
    b.untilClose depth (inside ++ ls) =
      (b.untilClose depth ls).map fun (more, rest) => (inside ++ more, rest) := by
  induction h generalizing depth ls with
  | nil => simp
  | plain hopen hclose h ih =>
    simp [untilClose, hopen, hclose, ih, Function.comp_def]
  | @group opening close inside rest hopen hinside hclose h ihinside ih =>
    have hclose' := isPunct_eq_false hne hclose
    simp [untilClose, hopen, hclose, hclose', ihinside, ih, Function.comp_def]

/-- The bracket that closes a group stands behind the nested row that the group holds. -/
theorem untilClose_eq_some_iff (hne : b.opening ≠ b.closing) {ls inside rest : List Lexeme} :
    b.untilClose 0 ls = some (inside, rest) ↔
      ∃ close, close.isPunct b.closing = true ∧ ls = inside ++ close :: rest ∧ b.Nested inside := by
  constructor
  · intro h
    obtain ⟨close, hclose, hls⟩ := eq_append_of_untilClose h
    exact ⟨close, hclose, hls, nestedUnder_of_untilClose h⟩
  · rintro ⟨close, hclose, rfl, hinside⟩
    simp [untilClose_append hne hinside, untilClose, hclose, isPunct_eq_false hne hclose]

/-! ## The bracket that opens a group -/

/-- A nested row has as many opening brackets as closing ones. -/
theorem Nested.countP_eq (hne : b.opening ≠ b.closing) {ls : List Lexeme} (h : b.Nested ls) :
    ls.countP (·.isPunct b.opening) = ls.countP (·.isPunct b.closing) := by
  induction h with
  | nil => rfl
  | plain hopen hclose _ ih => simpa [hopen, hclose] using ih
  | group hopen _ hclose _ ihinside ih =>
    have hopen' := isPunct_eq_false hne.symm hopen
    have hclose' := isPunct_eq_false hne hclose
    simp only [List.countP_cons, List.countP_append, hopen, hopen', hclose, hclose', ihinside, ih]
    simp only [if_true, Bool.false_eq_true, if_false]
    omega

/-- Behind a place in a nested row, there are at most as many opening brackets as closing ones. -/
theorem Nested.countP_drop_le (hne : b.opening ≠ b.closing) {ls : List Lexeme} (h : b.Nested ls)
    (n : Nat) :
    (ls.drop n).countP (·.isPunct b.opening) ≤ (ls.drop n).countP (·.isPunct b.closing) := by
  induction h generalizing n with
  | nil => simp
  | plain hopen hclose h ih =>
    cases n with
    | zero => exact Nat.le_of_eq ((Nested.plain hopen hclose h).countP_eq hne)
    | succ n => exact ih n
  | @group opening close inside rest hopen hinside hclose h ihinside ih =>
    cases n with
    | zero => exact Nat.le_of_eq ((Nested.group hopen hinside hclose h).countP_eq hne)
    | succ n =>
      have hclosing : ((close :: rest).drop (n - inside.length)).countP (·.isPunct b.opening) ≤
          ((close :: rest).drop (n - inside.length)).countP (·.isPunct b.closing) := by
        cases n - inside.length with
        | zero =>
          have hrest := ih 0
          have hclose' := isPunct_eq_false hne hclose
          simp only [List.drop_zero, List.countP_cons, hclose, hclose', if_true,
            Bool.false_eq_true, if_false] at hrest ⊢
          omega
        | succ m => exact ih m
      rw [List.drop_succ_cons, List.drop_append, List.countP_append, List.countP_append]
      exact Nat.add_le_add (ihinside n) hclosing

theorem nested_of_group {ls inside rest : List Lexeme} (h : b.group? ls = some (inside, rest)) :
    b.Nested inside := by
  cases ls with
  | nil => cases h
  | cons l ls =>
    rw [group?] at h
    split at h
    · exact nestedUnder_of_untilClose h
    · cases h

/-- A group is found whatever follows it. -/
theorem group?_append (hne : b.opening ≠ b.closing) {ls inside rest : List Lexeme}
    (h : b.group? ls = some (inside, rest)) (more : List Lexeme) :
    b.group? (ls ++ more) = some (inside, rest ++ more) := by
  obtain ⟨opening, close, hopen, hclose, rfl⟩ := eq_append_of_group h
  rw [List.cons_append, List.cons_append, group?, if_pos hopen, untilClose_eq_some_iff hne]
  exact ⟨close, hclose, by simp, nested_of_group h⟩

/-- No group that ends with a group starts behind its opening bracket. -/
theorem not_group_inside (hne : b.opening ≠ b.closing)
    {ls inside rest inside' rest' : List Lexeme} {n : Nat} (h : b.group? ls = some (inside, rest))
    (h' : b.group? (ls.drop (n + 1)) = some (inside', rest')) :
    inside.length ≠ n + 1 + inside'.length := by
  intro hlength
  obtain ⟨opening, close, _, hclose, hls⟩ := eq_append_of_group h
  obtain ⟨opening', close', hopen', hclose', hdrop⟩ := eq_append_of_group h'
  -- the later group ends what the earlier one holds, so its opening bracket is one too many
  have hend : inside.drop n = opening' :: inside' := by
    rw [hls, List.cons_append, List.drop_succ_cons,
      List.drop_append_of_le_length (by omega)] at hdrop
    exact (List.append_inj hdrop (by simp; omega)).1
  have hcount := (nested_of_group h).countP_drop_le hne n
  have hopen := isPunct_eq_false hne.symm hopen'
  rw [hend] at hcount
  simp only [List.countP_cons, hopen, hopen', (nested_of_group h').countP_eq hne, if_true,
    Bool.false_eq_true, if_false] at hcount
  omega

/-- Groups of a row that end at one place start at one place. -/
theorem eq_of_group_of_group (hne : b.opening ≠ b.closing)
    {ls inside rest inside' rest' : List Lexeme} {i j : Nat}
    (hi : b.group? (ls.drop i) = some (inside, rest))
    (hj : b.group? (ls.drop j) = some (inside', rest'))
    (hend : i + inside.length = j + inside'.length) : i = j := by
  rcases Nat.lt_trichotomy i j with hlt | heq | hlt
  · obtain ⟨n, rfl⟩ := Nat.exists_eq_add_of_lt hlt
    rw [Nat.add_assoc, ← List.drop_drop] at hj
    exact absurd (by omega) (not_group_inside hne hi hj)
  · exact heq
  · obtain ⟨n, rfl⟩ := Nat.exists_eq_add_of_lt hlt
    rw [Nat.add_assoc, ← List.drop_drop] at hi
    exact absurd (by omega) (not_group_inside hne hj hi)

end ZeroAlloc.BracketPair

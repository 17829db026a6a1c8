import ZeroAlloc.Proofs.Indexed.Attempt
import ZeroAlloc.Proofs.Site.Extent
set_option autoImplicit false

/-! # Rows by indices

Reading a row of lexemes where the place is an index: brackets are counted, ranges of indices are
copied, and array levels are read in a loop. Wherever the reader has looked at the bracket first,
nothing fails, and what is read is what the row from the place on gives. -/

namespace ZeroAlloc.Indexed

open Attempt (ofOption)

variable {ls : List Lexeme}

/-! ## Lexemes with an index -/

/-- The lexemes with the indices from `start` up to `stop`. -/
def between (ls : List Lexeme) (start stop : Nat) : List Lexeme :=
  (ls.drop start).take (stop - start)

/-- The lexeme with an index. -/
def lexemeAt (ls : List Lexeme) (i : Nat) : Attempt Lexeme :=
  match ls[i]? with
  | some l => .done l
  | none => .fault .index

/-- The lexemes from an index on. -/
def rowFrom (ls : List Lexeme) (i : Nat) : Attempt (List Lexeme) := do
  let r ← range i ls.length
  pure (ls.drop r.1)

/-- The lexemes with the indices of a range, where indices past the end are left out. -/
def piece (ls : List Lexeme) (start stop : Nat) : Attempt (List Lexeme) := do
  let r ← range start stop
  pure (between ls r.1 r.2)

/-- The lexemes from an index on that satisfy the test. -/
def run (p : Lexeme → Bool) (ls : List Lexeme) (start : Nat) : Attempt (List Lexeme) :=
  piece ls start (start + ((ls.drop start).takeWhile p).length)

/-- The lexemes with the indices of a range, without line breaks. -/
def exprTokens (ls : List Lexeme) (start stop : Nat) : Attempt (List Lexeme) := do
  let r ← range start stop
  let taken ← (List.range' r.1 (r.2 - r.1)).mapM (lexemeAt ls)
  pure (withoutNewlines taken)

/-- Whether a lexeme with an index from `start` up to `stop` is malformed. Indices past the end are
left out. -/
def hasErrorIn (ls : List Lexeme) (start stop : Nat) : Attempt Bool := do
  let r ← range (min start ls.length) (min stop ls.length)
  pure ((between ls r.1 r.2).any Lexeme.isError)

/-! ## Places -/

theorem drop_succ_of_eq_cons {i : Nat} {l : Lexeme} {row : List Lexeme}
    (h : ls.drop i = l :: row) : ls.drop (i + 1) = row := by
  rw [← List.tail_drop, h]
  rfl

/-- A lexeme stands at the place, so the place is not the end. -/
theorem length_sub_of_eq_cons {i : Nat} {l : Lexeme} {row : List Lexeme}
    (h : ls.drop i = l :: row) : ls.length - i = row.length + 1 := by
  rw [← List.length_drop, h, List.length_cons]

/-- The lexemes before the next place. -/
theorem reverse_take_succ {i : Nat} (hi : i < ls.length) :
    (ls.take (i + 1)).reverse = ls[i] :: (ls.take i).reverse := by
  rw [List.take_succ_eq_append_getElem hi, List.reverse_append]
  rfl

theorem length_reverse_take {i : Nat} (hi : i ≤ ls.length) :
    (ls.take i).reverse.length = i := by
  rw [List.length_reverse, List.length_take, Nat.min_eq_left hi]

/-! ## Pieces -/

theorem length_between {start stop : Nat} (hstop : stop ≤ ls.length) :
    (between ls start stop).length = stop - start := by
  rw [between, List.length_take, List.length_drop]
  omega

theorem between_self (start : Nat) : between ls start start = [] := by
  rw [between, Nat.sub_self, List.take_zero]

/-- A row that is cut at an index. -/
theorem between_append {start middle stop : Nat} (hstart : start ≤ middle) (hstop : middle ≤ stop) :
    between ls start stop = between ls start middle ++ between ls middle stop := by
  have hsplit : stop - start = (middle - start) + (stop - middle) := by omega
  rw [between, between, between, hsplit, List.take_add, List.drop_drop]
  congr 3
  omega

theorem between_eq_cons {start stop : Nat} {l : Lexeme} {rest : List Lexeme}
    (h : between ls start stop = l :: rest) :
    start < stop ∧ ls[start]? = some l ∧ between ls (start + 1) stop = rest := by
  rw [between] at h
  have hlt : start < stop := by
    refine Nat.lt_of_not_le fun hle => ?_
    rw [Nat.sub_eq_zero_of_le hle, List.take_zero] at h
    cases h
  have hsucc : stop - start = (stop - (start + 1)) + 1 := by omega
  cases hdrop : ls.drop start with
  | nil =>
    rw [hdrop, List.take_nil] at h
    cases h
  | cons m more =>
    rw [hdrop, hsucc, List.take_succ_cons] at h
    cases h
    refine ⟨hlt, ?_, ?_⟩
    · rw [← List.head?_drop, hdrop]
      rfl
    · rw [between, ← List.drop_drop, hdrop]
      rfl

theorem rowFrom_eq_done {i : Nat} (hi : i ≤ ls.length) : rowFrom ls i = .done (ls.drop i) := by
  rw [rowFrom, range_eq_done hi]
  rfl

theorem piece_eq_done {start stop : Nat} (h : start ≤ stop) :
    piece ls start stop = .done (between ls start stop) := by
  rw [piece, range_eq_done h]
  rfl

theorem exprTokens_eq_done {start stop : Nat} (hstart : start ≤ stop) (hstop : stop ≤ ls.length) :
    exprTokens ls start stop = .done (withoutNewlines (between ls start stop)) := by
  have hcopy : ∀ count start, start + count ≤ ls.length →
      (List.range' start count).mapM (lexemeAt ls) = .done ((ls.drop start).take count) := by
    intro count
    induction count with
    | zero =>
      intro start _
      rw [List.take_zero]
      rfl
    | succ count ih =>
      intro start hle
      have hlt : start < ls.length := by omega
      rw [List.range'_succ, List.mapM_cons, ih _ (by omega), lexemeAt,
        List.getElem?_eq_getElem hlt, List.drop_eq_getElem_cons hlt, List.take_succ_cons]
      rfl
  rw [exprTokens, range_eq_done hstart, Attempt.done_bind, hcopy _ _ (by omega)]
  rfl

theorem between_of_drop {start : Nat} {taken rest : List Lexeme}
    (h : ls.drop start = taken ++ rest) : between ls start (start + taken.length) = taken := by
  rw [between, h, Nat.add_sub_cancel_left, List.take_left]

theorem run_eq_done (p : Lexeme → Bool) (ls : List Lexeme) (start : Nat) :
    run p ls start = .done ((ls.drop start).takeWhile p) := by
  rw [run, piece_eq_done (Nat.le_add_right _ _),
    between_of_drop (@List.takeWhile_append_dropWhile _ p (ls.drop start)).symm]

/-- Copying a piece of the row. -/
theorem exprTokens_of_drop {start : Nat} {taken rest : List Lexeme} (hstart : start ≤ ls.length)
    (h : ls.drop start = taken ++ rest) :
    exprTokens ls start (start + taken.length) = .done (withoutNewlines taken) := by
  have hlength := congrArg List.length h
  rw [List.length_drop, List.length_append] at hlength
  rw [exprTokens_eq_done (by omega) (by omega), between_of_drop h]

theorem hasErrorIn_eq_done {start stop : Nat} (hstart : start ≤ stop) (hstop : stop ≤ ls.length) :
    hasErrorIn ls start stop = .done ((between ls start stop).any Lexeme.isError) := by
  rw [hasErrorIn, Nat.min_eq_left hstop, Nat.min_eq_left (by omega), range_eq_done hstart]
  rfl

/-! ## The index of a rest -/

/-- The index at which a rest of the row from an index on starts. -/
def behind (ls : List Lexeme) (i : Nat) (rest : List Lexeme) : Nat :=
  i + ((ls.drop i).length - rest.length)

theorem drop_behind {i : Nat} {rest : List Lexeme} (h : rest <:+ ls.drop i) :
    ls.drop (behind ls i rest) = rest := by
  obtain ⟨taken, htaken⟩ := h
  rw [behind, ← List.drop_drop, ← htaken, List.length_append, Nat.add_sub_cancel, List.drop_left]

theorem behind_eq {i : Nat} {taken rest : List Lexeme} (h : ls.drop i = taken ++ rest) :
    behind ls i rest = i + taken.length := by
  rw [behind, h, List.length_append, Nat.add_sub_cancel]

theorem behind_of_eq_cons {i : Nat} {l : Lexeme} {rest : List Lexeme}
    (h : ls.drop i = l :: rest) : behind ls i rest = i + 1 :=
  @behind_eq ls i [l] rest h

/-- A rest behind the first lexeme at an index, by the number of lexemes between the two. -/
theorem exists_width {i : Nat} {rest : List Lexeme} (hi : i < ls.length)
    (h : rest <:+ ls.drop (i + 1)) :
    ∃ width, ls.length = i + width + 1 + rest.length ∧
      behind ls (i + 1) rest = i + width + 1 ∧ ls.drop (i + width + 1) = rest := by
  obtain ⟨width, hwidth⟩ : ∃ width, (ls.drop (i + 1)).length = rest.length + width :=
    Nat.exists_eq_add_of_le h.length_le
  have hbehind : behind ls (i + 1) rest = i + width + 1 := by
    rw [behind]
    omega
  rw [List.length_drop] at hwidth
  exact ⟨width, by omega, hbehind, by rw [← hbehind, drop_behind h]⟩

/-- A rest of a rest, or a row that is not longer. -/
theorem behind_of_length_le {i : Nat} {rest rest' : List Lexeme} (h : rest <:+ ls.drop i)
    (h' : rest'.length ≤ rest.length) :
    behind ls (behind ls i rest) rest' = behind ls i rest' := by
  have hle := h.length_le
  rw [behind, drop_behind h, behind, behind]
  omega

/-- A rest of a rest. -/
theorem behind_trans {i : Nat} {rest rest' : List Lexeme} (h : rest <:+ ls.drop i)
    (h' : rest' <:+ rest) : behind ls (behind ls i rest) rest' = behind ls i rest' :=
  behind_of_length_le h h'.length_le

/-- Where a reader stops that starts at a rest. -/
theorem map_behind {α : Type} {i : Nat} {rest : List Lexeme} {out : Option (α × List Lexeme)}
    (h : rest <:+ ls.drop i) (hout : ∀ p, out = some p → p.2 <:+ rest) :
    out.map (fun p => behind ls (behind ls i rest) p.2) = out.map fun p => behind ls i p.2 := by
  cases out with
  | none => rfl
  | some p => rw [Option.map_some, Option.map_some, behind_trans h (hout p rfl)]

theorem behind_self (ls : List Lexeme) (i : Nat) : behind ls i (ls.drop i) = i := by
  rw [behind, Nat.sub_self, Nat.add_zero]

/-- A rest behind some lexemes of a rest. -/
theorem behind_append {i : Nat} {taken rest : List Lexeme} (h : taken ++ rest <:+ ls.drop i) :
    behind ls i (taken ++ rest) + taken.length = behind ls i rest := by
  have hle := h.length_le
  rw [List.length_append] at hle
  rw [behind, behind, List.length_append]
  omega

theorem behind_cons {i : Nat} {l : Lexeme} {rest : List Lexeme} (h : l :: rest <:+ ls.drop i) :
    behind ls i (l :: rest) + 1 = behind ls i rest :=
  @behind_append ls i [l] rest h

theorem behind_le_length {i : Nat} (rest : List Lexeme) (hi : i ≤ ls.length) :
    behind ls i rest ≤ ls.length := by
  rw [behind, List.length_drop]
  omega

theorem lt_length_of_startsWithPunct {p : String} {i : Nat}
    (h : startsWithPunct p (ls.drop i) = true) : i < ls.length := by
  refine Nat.lt_of_not_le fun hle => ?_
  rw [List.drop_eq_nil_of_le hle] at h
  cases h

theorem suffix_splitAlias (row : List Lexeme) : (splitAlias row).2 <:+ row := by
  unfold splitAlias
  split
  · rename_i name mark rest
    split
    · exact List.suffix_append [name, mark] rest
    · exact List.suffix_refl _
  · exact List.suffix_refl _

theorem definition_append (ends : Nat → Lexeme → Bool) (depth : Nat) (ls : List Lexeme) :
    (definition ends depth ls).1 ++ (definition ends depth ls).2 = ls := by
  induction ls generalizing depth with
  | nil => rfl
  | cons l ls ih =>
    rw [definition]
    split
    · rfl
    · exact congrArg (l :: ·) (ih _)

/-- Copying the definition of a constant and going on behind a comma, if what is read from every
shorter rest is what follows there. -/
theorem constantAt_eq {ends : Nat → Lexeme → Bool} {start : Nat} {value : List Lexeme}
    {next : Nat → Attempt (List (String × List Lexeme))}
    {following : List Lexeme → List (String × List Lexeme)} (name : String)
    (hstart : start ≤ ls.length) (hvalue : ls.drop start = value)
    (hnext : ∀ i, (ls.drop i).length ≤ value.length → next i = .done (following (ls.drop i))) :
    (do
      let tokens ← exprTokens ls start (start + (definition ends 0 value).1.length)
      let more ←
        if startsWithPunct "," (ls.drop (start + (definition ends 0 value).1.length)) then
          next (start + (definition ends 0 value).1.length + 1)
        else pure []
      pure ((name, tokens) :: more)) =
        .done ((name, withoutNewlines (definition ends 0 value).1) ::
          if startsWithPunct "," (definition ends 0 value).2 then
            following (definition ends 0 value).2.tail
          else []) := by
  have hsplit := definition_append ends 0 value
  generalize definition ends 0 value = split at hsplit ⊢
  obtain ⟨taken, rest⟩ := split
  dsimp only at hsplit ⊢
  subst hsplit
  have hrest : ls.drop (start + taken.length) = rest := by
    rw [← List.drop_drop, hvalue, List.drop_left]
  have htail : ls.drop (start + taken.length + 1) = rest.tail := by
    rw [← List.tail_drop, hrest]
  have hmore := hnext (start + taken.length + 1) (by
    rw [htail, List.length_tail, List.length_append]
    omega)
  rw [exprTokens_of_drop hstart hvalue, Attempt.done_bind, hrest, hmore, htail]
  split <;> rfl

/-! ## Brackets -/

/-- The index of the bracket that closes a group, `depth` brackets in; the row goes on with the
lexeme that has the index `i`. -/
def closeFrom (b : BracketPair) (depth i : Nat) : List Lexeme → Attempt Nat
  | [] => .absent
  | l :: ls =>
    if l.isPunct b.opening then closeFrom b (depth + 1) (i + 1) ls
    else if l.isPunct b.closing then do
      let depth ← decrement depth
      if depth = 0 then pure i else closeFrom b depth (i + 1) ls
    else closeFrom b depth (i + 1) ls

/-- The index of the bracket that closes the one with the given index. -/
def matchingClose (b : BracketPair) (ls : List Lexeme) (opening : Nat) : Attempt Nat := do
  let row ← rowFrom ls opening
  closeFrom b 0 opening row

/-- The index of the bracket around a place, `depth` groups behind it; the row is that of the
lexemes before the place, nearest first. -/
def openFrom (b : BracketPair) (depth : Nat) : List Lexeme → Attempt Nat
  | [] => .absent
  | l :: before =>
    if l.isPunct b.closing then openFrom b (depth + 1) before
    else if l.isPunct b.opening then
      if depth = 0 then pure before.length
      else do
        let depth ← decrement depth
        openFrom b depth before
    else openFrom b depth before

/-- The index of the bracket around the lexeme with an index. -/
def enclosingOpen (b : BracketPair) (ls : List Lexeme) (i : Nat) : Attempt Nat :=
  openFrom b 0 (ls.take i).reverse

theorem closeFrom_eq (b : BracketPair) (depth i : Nat) (row : List Lexeme) :
    closeFrom b (depth + 1) i row =
      ofOption ((b.untilClose depth row).map fun p => i + p.1.length) := by
  induction row generalizing depth i with
  | nil => rfl
  | cons l row ih =>
    rw [closeFrom, BracketPair.untilClose.eq_def]
    dsimp only
    split
    · rw [ih, Option.map_map]
      congr 2
      funext p
      simp only [Function.comp_apply, List.length_cons]
      omega
    · split
      · rw [decrement_succ, Attempt.done_bind]
        cases depth with
        | zero => rfl
        | succ depth =>
          rw [if_neg (Nat.succ_ne_zero depth), ih, Option.map_map]
          congr 2
          funext p
          simp only [Function.comp_apply, List.length_cons]
          omega
      · rw [ih, Option.map_map]
        congr 2
        funext p
        simp only [Function.comp_apply, List.length_cons]
        omega

/-- From an opening bracket, the count never goes below zero. -/
theorem matchingClose_eq {b : BracketPair} {opening : Nat}
    (h : startsWithPunct b.opening (ls.drop opening) = true) :
    matchingClose b ls opening =
      ofOption ((b.group? (ls.drop opening)).map fun p => opening + p.1.length + 1) := by
  rw [matchingClose, rowFrom_eq_done (Nat.le_of_lt (lt_length_of_startsWithPunct h)),
    Attempt.done_bind]
  cases hdrop : ls.drop opening with
  | nil =>
    rw [hdrop] at h
    cases h
  | cons l row =>
    have hopen : l.isPunct b.opening = true := by
      rw [hdrop] at h
      exact h
    rw [closeFrom, if_pos hopen, closeFrom_eq, BracketPair.group?, if_pos hopen]
    congr 2
    funext p
    omega

/-- From a closing bracket, it would. -/
example : matchingClose .parens [⟨.punct, ")"⟩] 0 = .fault .depth := by
  rfl

theorem enclosingOpen_eq (b : BracketPair) (ls : List Lexeme) (i : Nat) :
    enclosingOpen b ls i =
      ofOption ((b.enclosing? (ls.take i).reverse).map fun p => p.2.length) := by
  have hfrom : ∀ before depth, openFrom b depth before =
      ofOption ((b.flip.untilClose depth before).map fun p => p.2.length) := by
    intro before
    induction before with
    | nil =>
      intro depth
      rfl
    | cons l before ih =>
      intro depth
      have hopening : b.flip.opening = b.closing := rfl
      have hclosing : b.flip.closing = b.opening := rfl
      rw [openFrom, BracketPair.untilClose.eq_def]
      simp only [hopening, hclosing]
      split
      · rw [ih, Option.map_map]
        rfl
      · split
        · cases depth with
          | zero => rfl
          | succ depth =>
            rw [if_neg (Nat.succ_ne_zero depth), decrement_succ, Attempt.done_bind, ih,
              Option.map_map]
            rfl
        · rw [ih, Option.map_map]
          rfl
  rw [enclosingOpen, hfrom, BracketPair.enclosing?, Option.map_map]
  rfl

/-- The indices of a group: its closing bracket has one, its contents stand between the brackets,
and the rest starts behind it. -/
theorem between_of_group {b : BracketPair} {opening : Nat} {inside rest : List Lexeme}
    (h : b.group? (ls.drop opening) = some (inside, rest)) :
    opening + inside.length + 1 < ls.length ∧
      between ls (opening + 1) (opening + inside.length + 1) = inside ∧
        opening + inside.length + 1 + 1 = behind ls opening rest := by
  obtain ⟨l, close, _, _, hdrop⟩ := BracketPair.eq_append_of_group h
  have hlength := congrArg List.length hdrop
  simp only [List.length_drop, List.cons_append, List.length_cons, List.length_append] at hlength
  have htail : ls.drop (opening + 1) = inside ++ close :: rest := by
    rw [← List.drop_drop, hdrop]
    rfl
  refine ⟨by omega, ?_, ?_⟩
  · rw [between, htail, show opening + inside.length + 1 - (opening + 1) = inside.length by omega,
      List.take_left]
  · rw [behind, hdrop]
    simp only [List.cons_append, List.length_cons, List.length_append]
    omega

/-- Lexemes before a place, of those that stand before a later one. -/
theorem reverse_take_of_suffix {stop : Nat} {outside : List Lexeme}
    (h : outside <:+ (ls.take stop).reverse) : (ls.take outside.length).reverse = outside := by
  have htaken : outside.reverse <+: ls.take stop := by
    rw [← List.reverse_suffix, List.reverse_reverse]
    exact h
  have hprefix := List.prefix_iff_eq_take.1 (htaken.trans (List.take_prefix stop ls))
  rw [List.length_reverse] at hprefix
  rw [← hprefix, List.reverse_reverse]

/-- The indices of the bracket around a place: the lexemes outside stand before it, and those
inside between it and the place. -/
theorem between_of_enclosing {b : BracketPair} {i : Nat} {inside outside : List Lexeme}
    (h : b.enclosing? (ls.take i).reverse = some (inside, outside)) :
    outside.length < i ∧ (ls.take outside.length).reverse = outside ∧
      between ls (outside.length + 1) i = inside := by
  obtain ⟨⟨passed, _⟩, huntil, he⟩ := Option.map_eq_some_iff.1 h
  cases he
  obtain ⟨bracket, _, hreverse⟩ := BracketPair.eq_append_of_untilClose huntil
  have htake : ls.take i = outside.reverse ++ (bracket :: passed.reverse) := by
    rw [← List.reverse_reverse (ls.take i), hreverse]
    simp
  have hlt : outside.length < i := by
    have := congrArg List.length htake
    simp only [List.length_take, List.length_append, List.length_reverse, List.length_cons] at this
    omega
  refine ⟨hlt, ?_, ?_⟩
  · refine @reverse_take_of_suffix _ i _ ?_
    rw [hreverse]
    exact (List.suffix_cons bracket outside).trans (List.suffix_append passed _)
  · rw [between, ← List.drop_take, htake, ← List.drop_drop,
      List.drop_left' (List.length_reverse)]
    rfl

end ZeroAlloc.Indexed

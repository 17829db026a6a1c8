import ZeroAlloc.Proofs.Indexed.Text
set_option autoImplicit false

/-! # Lines by bisection

The line of an offset is looked up among the offsets at which lines start, by halving a range of
indices. Every offset has a line, also one inside a character or past the end of the text, and no
offset makes the search fail (`bisectedPosition_eq_done`). At boundaries, positions count line feeds
and characters, and grow with the offset (`locatesOffsets`). -/

namespace ZeroAlloc

namespace Text

/-- The strict order of positions: by line, and on one line by column. -/
def Position.IsBefore (p q : Position) : Prop :=
  p.line < q.line ∨ p.line = q.line ∧ p.column < q.column

/-- Further on in a text the position is a strictly later one. -/
theorem Position.behind_isBefore_append (pre : List Char) {mid : List Char} (hmid : mid ≠ []) :
    (behind pre).IsBefore (behind (pre ++ mid)) := by
  rcases behind_precedes_append pre mid with hline | ⟨hline, hcolumn⟩
  · exact .inl hline
  · refine .inr ⟨hline, Nat.lt_of_le_of_ne hcolumn fun heq => hmid ?_⟩
    exact eq_nil_of_behind_append (congrArg₂ Position.mk hline heq).symm

/-- An offset that is no boundary is inside a character, behind an initial part of the text, or past
the end of the text. -/
theorem exists_split_of_not_isBoundary {n : Nat} {cs : List Char} (h : isBoundary n cs = false) :
    ∃ pre post, cs = pre ++ post ∧ byteLength pre < n ∧
      ∀ c more, post = c :: more → n < byteLength pre + c.utf8Size := by
  induction cs generalizing n with
  | nil =>
    cases n with
    | zero => cases h
    | succ n => exact ⟨[], [], rfl, Nat.succ_pos n, nofun⟩
  | cons c cs ih =>
    cases n with
    | zero => cases h
    | succ n =>
      by_cases hsize : c.utf8Size ≤ n + 1
      · simp only [isBoundary, hsize, decide_true, Bool.true_and] at h
        obtain ⟨pre, post, rfl, hpre, hpost⟩ := ih h
        refine ⟨c :: pre, post, rfl, ?_, fun d more hd => ?_⟩
        · rw [byteLength]
          omega
        · have := hpost d more hd
          rw [byteLength]
          omega
      · refine ⟨[], c :: cs, rfl, Nat.succ_pos n, fun d more hd => ?_⟩
        obtain ⟨rfl, -⟩ := List.cons.inj hd
        rw [byteLength]
        omega

/-- A walk stops in front of a character that an offset is inside of. -/
theorem Walk.positionOf_inside (w : Walk) {pre post : List Char} {offset : Nat}
    (hpre : w.offset + byteLength pre < offset)
    (hpost : ∀ c more, post = c :: more → offset < w.offset + byteLength pre + c.utf8Size) :
    w.positionOf offset (pre ++ post) = (pre.foldl pass w).positionInside offset := by
  induction pre generalizing w with
  | nil =>
    rw [byteLength] at hpre hpost
    cases post with
    | nil => exact if_neg (by omega)
    | cons c more =>
      have := hpost c more rfl
      rw [List.nil_append, positionOf, if_neg (by omega), if_pos (by omega)]
      rfl
  | cons c pre ih =>
    rw [byteLength] at hpre hpost
    have hbehind := offset_pass w c
    rw [List.cons_append, positionOf, if_neg (by omega), if_neg (by omega)]
    refine ih (w.pass c) (by omega) fun d more hd => ?_
    have := hpost d more hd
    omega

end Text

namespace Indexed

open Text (byteLength byteLength_append Position Walk)

/-! ## Bisection -/

/-- Where a key belongs in an ascending row: at an entry that equals it, or, where there is none,
in front of the entry with the index. -/
inductive Slot where
  | found (index : Nat)
  | missing (index : Nat)

/-- The number of entries up to the key. -/
def Slot.count : Slot → Nat
  | found index => index + 1
  | missing index => index

/-- The slot of a key in a row, between two indices. The entry in the middle of them tells in which
half to go on. -/
def bisect (row : List Nat) (key low high : Nat) : Attempt Slot :=
  if low < high then
    let middle := low + (high - low) / 2
    match row[middle]? with
    | none => .fault .index
    | some entry =>
      if entry = key then .done (.found middle)
      else if entry < key then bisect row key (middle + 1) high
      else bisect row key low middle
  else .done (.missing low)
termination_by high - low

/-- A count is the index up to which the entries are counted. -/
theorem countP_eq_of_split {row : List Nat} {key index : Nat} (hindex : index ≤ row.length)
    (hbelow : ∀ x ∈ row.take index, x ≤ key) (habove : ∀ x ∈ row.drop index, key < x) :
    row.countP (· ≤ key) = index := by
  conv_lhs => rw [← List.take_append_drop index row]
  rw [List.countP_append, List.countP_eq_length.2 (by simpa using hbelow),
    List.countP_eq_zero.2 (by simpa using habove), List.length_take]
  omega

/-- An entry of an ascending row parts the smaller entries from the larger ones. -/
theorem bounds_of_getElem? {row : List Nat} (hrow : row.Pairwise (· < ·)) {index entry : Nat}
    (h : row[index]? = some entry) :
    (∀ x ∈ row.take (index + 1), x ≤ entry) ∧ (∀ x ∈ row.drop index, entry ≤ x) ∧
      ∀ x ∈ row.drop (index + 1), entry < x := by
  obtain ⟨hlt, rfl⟩ := List.getElem?_eq_some_iff.1 h
  have hsplit : row = row.take index ++ row[index] :: row.drop (index + 1) := by
    rw [List.getElem_cons_drop, List.take_append_drop]
  have hpairs := hrow
  rw [hsplit, List.pairwise_append, List.pairwise_cons] at hpairs
  obtain ⟨-, ⟨hbehind, -⟩, hbefore⟩ := hpairs
  refine ⟨fun x hx => ?_, fun x hx => ?_, hbehind⟩
  · rw [List.take_add_one, h, List.mem_append] at hx
    rcases hx with hx | hx
    · exact Nat.le_of_lt (hbefore x hx _ List.mem_cons_self)
    · exact Nat.le_of_eq (List.mem_singleton.1 hx)
  · rw [← List.getElem_cons_drop hlt, List.mem_cons] at hx
    rcases hx with rfl | hx
    · exact Nat.le_refl _
    · exact Nat.le_of_lt (hbehind x hx)

/-- The search between two indices that part the entries up to the key from the others finds its
slot. -/
theorem exists_bisect_eq_done {row : List Nat} (hrow : row.Pairwise (· < ·)) (key : Nat)
    {low high : Nat} (hle : low ≤ high) (hhigh : high ≤ row.length)
    (hbelow : ∀ x ∈ row.take low, x ≤ key) (habove : ∀ x ∈ row.drop high, key < x) :
    ∃ slot, bisect row key low high = .done slot ∧ slot.count = row.countP (· ≤ key) := by
  fun_induction bisect row key low high with
  | case1 low high hlt middle hnone =>
    have := List.getElem?_eq_none_iff.1 hnone
    omega
  | case2 low high hlt middle hentry =>
    obtain ⟨hbefore, -, hbehind⟩ := bounds_of_getElem? hrow hentry
    exact ⟨.found middle, rfl, (countP_eq_of_split (by omega) hbefore hbehind).symm⟩
  | case3 low high hlt middle entry hentry hne hless ih =>
    obtain ⟨hbefore, -, -⟩ := bounds_of_getElem? hrow hentry
    refine ih (by omega) hhigh (fun x hx => ?_) habove
    exact Nat.le_trans (hbefore x hx) (Nat.le_of_lt hless)
  | case4 low high hlt middle entry hentry hne hless ih =>
    obtain ⟨-, hfrom, -⟩ := bounds_of_getElem? hrow hentry
    refine ih (by omega) (by omega) hbelow fun x hx => ?_
    have := hfrom x hx
    omega
  | case5 low high hlt =>
    obtain rfl : low = high := by omega
    exact ⟨.missing low, rfl, (countP_eq_of_split hhigh hbelow habove).symm⟩

/-! ## Lines -/

/-- The index of the line of an offset, given the offsets at which lines start. Where no line starts
at the offset, its line is the one before its slot. -/
def lineOf (starts : List Nat) (offset : Nat) : Attempt Nat := do
  match ← bisect starts offset 0 starts.length with
  | .found line => pure line
  | .missing next => decrement next

/-- The line and column of an offset, the line by bisection. -/
def bisectedPosition (cs : List Char) (offset : Nat) : Attempt Position := do
  let line ← lineOf (lineStarts cs) offset
  match (lineStarts cs)[line]? with
  | none => .fault .index
  | some start =>
    let (start, offset) ← range start offset
    let column :=
      match textBetween cs start offset with
      | .done text => text.length
      | _ => offset - start
    pure ⟨line + 1, column + 1⟩

theorem pairwise_lineStartsFrom (offset : Nat) (cs : List Char) :
    (lineStartsFrom offset cs).Pairwise (· < ·) := by
  induction cs generalizing offset with
  | nil => exact .nil
  | cons c cs ih =>
    rw [lineStartsFrom]
    split
    · exact List.pairwise_cons.2 ⟨fun _ h => (bounds_of_mem_lineStartsFrom h).1, ih _⟩
    · exact ih _

theorem pairwise_lineStarts (cs : List Char) : (lineStarts cs).Pairwise (· < ·) :=
  List.pairwise_cons.2
    ⟨fun _ h => (bounds_of_mem_lineStartsFrom h).1, pairwise_lineStartsFrom 0 cs⟩

/-- Bisection finds the line that counting the starts of lines finds. -/
theorem lineOf_lineStarts (cs : List Char) (offset : Nat) :
    lineOf (lineStarts cs) offset = decrement ((lineStarts cs).countP (· ≤ offset)) := by
  obtain ⟨slot, hslot, hcount⟩ := exists_bisect_eq_done (pairwise_lineStarts cs) offset
    (Nat.zero_le _) (Nat.le_refl _) (by simp) (by simp)
  rw [lineOf, hslot, ← hcount]
  cases slot <;> rfl

theorem bisectedPosition_eq (cs : List Char) (offset : Nat) :
    bisectedPosition cs offset = position cs offset := by
  rw [bisectedPosition, lineOf_lineStarts]
  rfl

/-! ## Offsets that are no boundaries -/

theorem lineStarts_concat (pre : List Char) (c : Char) :
    lineStarts (pre ++ [c]) = lineStarts pre ++ lineStartsFrom (byteLength pre) [c] := by
  rw [lineStarts, lineStarts, lineStartsFrom_append, Nat.zero_add, List.cons_append]

theorem length_lineStarts (cs : List Char) : (lineStarts cs).length = cs.count '\n' + 1 := by
  rw [lineStarts, List.length_cons, length_lineStartsFrom]

theorem offset_foldl_pass (pre : List Char) :
    (pre.foldl Walk.pass .start).offset = byteLength pre := by
  induction pre using List.reverseRecOn with
  | nil => rfl
  | append_singleton pre c ih =>
    rw [List.foldl_append, List.foldl_cons, List.foldl_nil, Walk.offset_pass, ih, byteLength_append]
    rfl

/-- The last line of a text starts where a walk over the text says. -/
theorem getElem?_lineStarts (pre : List Char) :
    (lineStarts pre)[pre.count '\n']? = some (pre.foldl Walk.pass .start).lineStart := by
  induction pre using List.reverseRecOn with
  | nil => rfl
  | append_singleton pre c ih =>
    rw [List.foldl_append, List.foldl_cons, List.foldl_nil, lineStarts_concat, List.count_append,
      Walk.pass]
    by_cases hfeed : c = '\n'
    · rw [hfeed, List.count_singleton_self, ← length_lineStarts, if_pos rfl,
        List.getElem?_append_right (Nat.le_refl _), Nat.sub_self, offset_foldl_pass]
      rfl
    · rw [List.count_singleton, if_neg (by simpa using hfeed), if_neg hfeed, Nat.add_zero,
        List.getElem?_append_left (by rw [length_lineStarts]; omega)]
      exact ih

/-- No line starts between the start of a character and an offset inside of it. -/
theorem countP_lineStarts {pre post : List Char} {offset : Nat} (hpre : byteLength pre ≤ offset)
    (hpost : ∀ c more, post = c :: more → offset < byteLength pre + c.utf8Size) :
    (lineStarts (pre ++ post)).countP (· ≤ offset) = pre.count '\n' + 1 := by
  have hbefore : ∀ start ∈ lineStarts pre, start ≤ offset := by
    intro start hstart
    rcases List.mem_cons.1 hstart with rfl | hstart
    · exact Nat.zero_le _
    · have := bounds_of_mem_lineStartsFrom hstart
      omega
  have hbehind : ∀ start ∈ lineStartsFrom (byteLength pre) post, offset < start := by
    cases post with
    | nil => nofun
    | cons c more =>
      intro start hstart
      have hnext := hpost c more rfl
      rw [lineStartsFrom] at hstart
      split at hstart
      · rcases List.mem_cons.1 hstart with rfl | hstart
        · exact hnext
        · exact Nat.lt_trans hnext (bounds_of_mem_lineStartsFrom hstart).1
      · exact Nat.lt_trans hnext (bounds_of_mem_lineStartsFrom hstart).1
  rw [lineStarts, lineStartsFrom_append, Nat.zero_add, ← List.cons_append, List.countP_append,
    List.countP_eq_length.2 (by simpa [lineStarts] using hbefore),
    List.countP_eq_zero.2 (by simpa using hbehind), Nat.add_zero]
  exact length_lineStarts pre

/-- Inside a character and past the end, the column counts the bytes of the line. -/
theorem position_of_not_isBoundary {cs : List Char} {offset : Nat}
    (h : Text.isBoundary offset cs = false) :
    position cs offset = .done (Text.positionAt cs offset) := by
  obtain ⟨pre, post, rfl, hpre, hpost⟩ := Text.exists_split_of_not_isBoundary h
  have hposition : Text.positionAt (pre ++ post) offset =
      (pre.foldl Walk.pass .start).positionInside offset :=
    Walk.positionOf_inside .start (by simpa [Walk.start] using hpre)
      (by simpa [Walk.start] using hpost)
  have hlines : (pre.foldl Walk.pass .start).lines = pre.count '\n' :=
    Nat.succ.inj (congrArg Position.line (Walk.position_foldl_pass pre))
  have hfound := getElem?_lineStarts pre
  have hstart : (pre.foldl Walk.pass .start).lineStart ≤ offset := by
    rcases List.mem_cons.1 (List.mem_of_getElem? hfound) with hzero | hmem
    · omega
    · have := bounds_of_mem_lineStartsFrom hmem
      omega
  have hcut : textBetween (pre ++ post) (pre.foldl Walk.pass .start).lineStart offset =
      .fault .slice := by
    rw [textBetween, if_neg (by simp [h])]
  have hline : (lineStarts (pre ++ post))[pre.count '\n']? =
      some (pre.foldl Walk.pass .start).lineStart := by
    rw [lineStarts, lineStartsFrom_append, ← List.cons_append, List.getElem?_append_left]
    · exact hfound
    · rw [List.length_cons, length_lineStartsFrom]
      omega
  rw [position, countP_lineStarts (Nat.le_of_lt hpre) hpost, decrement_succ, Attempt.done_bind,
    hline, hposition]
  simp only [range_eq_done hstart, Attempt.done_bind, hcut, Attempt.pure_eq_done,
    Walk.positionInside, hlines]

/-- Every offset has a position, and finding it by bisection does not fail. -/
theorem bisectedPosition_eq_done (cs : List Char) (offset : Nat) :
    bisectedPosition cs offset = .done (Text.positionAt cs offset) := by
  rw [bisectedPosition_eq]
  cases h : Text.isBoundary offset cs with
  | false => exact position_of_not_isBoundary h
  | true =>
    obtain ⟨pre, post, rfl, rfl⟩ := Text.isBoundary_iff.1 h
    rw [position_append, Text.positionAt_append]

/-! ## Positions of a text -/

/-- What the positions of the offsets of a text tell. -/
structure LocatesOffsets (cs : List Char) : Prop where
  /-- The search fails at no offset, inside a character and past the end neither. -/
  done : ∀ offset, bisectedPosition cs offset = .done (Text.positionAt cs offset)
  /-- At a boundary, the line counts the line feeds before it, and the column the characters behind
  the last of them. -/
  counts : ∀ offset, Text.isBoundary offset cs = true →
    Text.positionAt cs offset = .behind (Text.takeBytes offset cs)
  increases : ∀ offset other, Text.isBoundary offset cs = true →
    Text.isBoundary other cs = true → offset < other →
      (Text.positionAt cs offset).IsBefore (Text.positionAt cs other)
  distinguishes : ∀ offset other, Text.isBoundary offset cs = true →
    Text.isBoundary other cs = true → Text.positionAt cs offset = Text.positionAt cs other →
      offset = other

theorem positionAt_of_isBoundary {cs : List Char} {offset : Nat}
    (h : Text.isBoundary offset cs = true) :
    Text.positionAt cs offset = .behind (Text.takeBytes offset cs) := by
  obtain ⟨pre, post, rfl, rfl⟩ := Text.isBoundary_iff.1 h
  rw [Text.positionAt_append, Text.takeBytes_append]

theorem positionAt_isBefore {cs : List Char} {offset other : Nat}
    (h : Text.isBoundary offset cs = true) (hother : Text.isBoundary other cs = true)
    (hlt : offset < other) :
    (Text.positionAt cs offset).IsBefore (Text.positionAt cs other) := by
  obtain ⟨pre, post, rfl, rfl⟩ := Text.isBoundary_iff.1 h
  obtain ⟨pre', post', hsplit, rfl⟩ := Text.isBoundary_iff.1 hother
  obtain ⟨mid, rfl, rfl⟩ := Text.exists_append_of_byteLength_le hsplit (Nat.le_of_lt hlt)
  have hmid : mid ≠ [] := by
    rintro rfl
    rw [List.append_nil] at hlt
    exact Nat.lt_irrefl _ hlt
  rw [Text.positionAt_append, hsplit, Text.positionAt_append]
  exact Position.behind_isBefore_append pre hmid

/-- In every text, bisection finds the position of every offset, and positions are told from each
other and ordered as the boundaries are. -/
theorem locatesOffsets (source : String) : LocatesOffsets source.toList where
  done := bisectedPosition_eq_done source.toList
  counts _ h := positionAt_of_isBoundary h
  increases _ _ h hother hlt := positionAt_isBefore h hother hlt
  distinguishes offset other h hother heq := by
    have hirrefl (p : Position) : ¬p.IsBefore p := by
      simp [Position.IsBefore]
    rcases Nat.lt_trichotomy offset other with hlt | hsame | hlt
    · exact absurd (heq ▸ positionAt_isBefore h hother hlt) (hirrefl _)
    · exact hsame
    · exact absurd (heq ▸ positionAt_isBefore hother h hlt) (hirrefl _)

/-- Inside a character, bytes are counted. -/
example : Text.positionAt "aé\nb".toList 2 = ⟨1, 3⟩ := by
  decide

end Indexed

end ZeroAlloc

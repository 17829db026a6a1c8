import Mathlib.Data.List.Induction
import ZeroAlloc.Text.Bytes
import ZeroAlloc.Text.Position
set_option autoImplicit false

/-! # Cutting a text at byte offsets

A boundary is the byte length of an initial part of the text, and at a boundary the cut gives that
part and the rest. There the line counts the line feeds of the text before it, and the column the
characters behind the last of them (`positionAt_append`). So the span of a piece of a text tells
where the piece starts and ends (`cutsOut_of`). -/

namespace ZeroAlloc.Text

/-- The bytes of a piece of source text are those of its characters. -/
theorem utf8ByteSize_ofList (cs : List Char) : (String.ofList cs).utf8ByteSize = byteLength cs := by
  induction cs with
  | nil => rfl
  | cons c cs ih =>
    rw [← List.singleton_append, String.ofList_append, String.utf8ByteSize_append, ih,
      byteLength_append]
    simp [byteLength, String.utf8ByteSize_singleton]

/-- The first character takes at least one byte, so the recursions on an offset go on. -/
theorem byteLength_cons_eq_succ (c : Char) (cs : List Char) :
    ∃ n, byteLength (c :: cs) = n + 1 ∧ c.utf8Size ≤ n + 1 ∧
      n + 1 - c.utf8Size = byteLength cs := by
  have := c.utf8Size_pos
  refine ⟨c.utf8Size + byteLength cs - 1, ?_, ?_, ?_⟩
  · rw [byteLength]
    omega
  · omega
  · omega

theorem takeBytes_append (pre post : List Char) :
    takeBytes (byteLength pre) (pre ++ post) = pre := by
  induction pre with
  | nil => simp [byteLength, takeBytes]
  | cons c cs ih =>
    obtain ⟨n, hn, _, hcs⟩ := byteLength_cons_eq_succ c cs
    rw [hn, List.cons_append, takeBytes, hcs, ih]

theorem dropBytes_append (pre post : List Char) :
    dropBytes (byteLength pre) (pre ++ post) = post := by
  have h := takeBytes_append_dropBytes (byteLength pre) (pre ++ post)
  rw [takeBytes_append] at h
  exact List.append_cancel_left h

/-- What stands between two offsets at which a text is cut. -/
theorem sliceBytes_append (pre piece post : List Char) :
    sliceBytes (pre ++ (piece ++ post)) (byteLength pre) (byteLength pre + byteLength piece) =
      piece := by
  rw [sliceBytes, dropBytes_append, Nat.add_sub_cancel_left, takeBytes_append]

theorem isBoundary_append (pre post : List Char) :
    isBoundary (byteLength pre) (pre ++ post) = true := by
  induction pre with
  | nil => simp [byteLength, isBoundary]
  | cons c cs ih =>
    obtain ⟨n, hn, hc, hcs⟩ := byteLength_cons_eq_succ c cs
    rw [hn, List.cons_append, isBoundary, hcs, ih]
    simpa using hc

/-- Every character takes bytes. -/
theorem eq_nil_of_byteLength {cs : List Char} (h : byteLength cs = 0) : cs = [] := by
  cases cs with
  | nil => rfl
  | cons c cs =>
    obtain ⟨n, hn, _⟩ := byteLength_cons_eq_succ c cs
    omega

/-- Of two initial parts of a text, the one with fewer bytes starts the other. -/
theorem exists_append_of_byteLength_le {a b p q : List Char} (h : a ++ b = p ++ q)
    (hle : byteLength a ≤ byteLength p) : ∃ mid, p = a ++ mid ∧ b = mid ++ q := by
  rcases List.append_eq_append_iff.1 h with ⟨mid, hp, hb⟩ | ⟨mid, ha, hq⟩
  · exact ⟨mid, hp, hb⟩
  · rw [ha, byteLength_append] at hle
    obtain rfl := @eq_nil_of_byteLength mid (by omega)
    exact ⟨[], by simpa using ha.symm, by simpa using hq.symm⟩

/-- A text that is split twice at one offset has one rest. -/
theorem append_right_inj_of_byteLength {a b p q : List Char} (h : a ++ b = p ++ q)
    (hlength : byteLength a = byteLength p) : b = q := by
  obtain ⟨mid, hp, hb⟩ := exists_append_of_byteLength_le h (Nat.le_of_eq hlength)
  rw [hp, byteLength_append] at hlength
  obtain rfl := @eq_nil_of_byteLength mid (by omega)
  exact hb

/-- At a boundary the text can be cut in two. -/
theorem isBoundary_iff {n : Nat} {cs : List Char} :
    isBoundary n cs = true ↔ ∃ pre post, cs = pre ++ post ∧ n = byteLength pre := by
  constructor
  · intro h
    exact ⟨takeBytes n cs, dropBytes n cs, (takeBytes_append_dropBytes n cs).symm,
      (byteLength_takeBytes h).symm⟩
  · rintro ⟨pre, post, rfl, rfl⟩
    exact isBoundary_append pre post

/-! ## Positions of pieces of a text -/

/-- The position behind an initial part of a text. -/
def Position.behind (pre : List Char) : Position where
  line := pre.count '\n' + 1
  column := (pre.reverse.takeWhile (· ≠ '\n')).length + 1

namespace Walk

variable (w : Walk) (c : Char)

theorem offset_pass : (w.pass c).offset = w.offset + c.utf8Size := by
  unfold pass
  dsimp only
  split <;> rfl

theorem lines_pass : (w.pass c).lines = w.lines + if c = '\n' then 1 else 0 := by
  unfold pass
  dsimp only
  split <;> rfl

theorem columns_pass : (w.pass c).columns = if c = '\n' then 0 else w.columns + 1 := by
  unfold pass
  dsimp only
  split <;> rfl

/-- The position of an offset at which a character starts is that of the walk that comes there. -/
theorem positionOf_append (pre post : List Char) :
    w.positionOf (w.offset + byteLength pre) (pre ++ post) = (pre.foldl pass w).position := by
  induction pre generalizing w with
  | nil => cases post <;> simp [positionOf, byteLength]
  | cons c pre ih =>
    have hsize := c.utf8Size_pos
    have hoffset : w.offset + byteLength (c :: pre) = (w.pass c).offset + byteLength pre := by
      rw [offset_pass, byteLength, Nat.add_assoc]
    have hbehind := offset_pass w c
    rw [hoffset, List.cons_append, positionOf, if_neg (by omega), if_neg (by omega), ih]
    rfl

/-- What a walk from the start of a text has counted. -/
theorem position_foldl_pass (pre : List Char) :
    (pre.foldl pass start).position = Position.behind pre := by
  suffices h : (pre.foldl pass start).lines = pre.count '\n' ∧
      (pre.foldl pass start).columns = (pre.reverse.takeWhile (· ≠ '\n')).length by
    rw [position, h.1, h.2]
    rfl
  induction pre using List.reverseRecOn with
  | nil => exact ⟨rfl, rfl⟩
  | append_singleton pre c ih =>
    rw [List.foldl_append, List.foldl_cons, List.foldl_nil, List.reverse_concat, lines_pass,
      columns_pass, ih.1, ih.2]
    by_cases hfeed : c = '\n'
    · simp [hfeed]
    · simp [hfeed]

end Walk

theorem positionAt_append (pre post : List Char) :
    positionAt (pre ++ post) (byteLength pre) = Position.behind pre := by
  have h := Walk.start.positionOf_append pre post
  rw [show Walk.start.offset = 0 from rfl, Nat.zero_add] at h
  rw [positionAt, h, Walk.position_foldl_pass]

/-- Behind a further first line, positions are one line further down. -/
theorem Position.behind_line {line : List Char} (h : '\n' ∉ line) (pre : List Char) :
    behind (line ++ '\n' :: pre) = ⟨(behind pre).line + 1, (behind pre).column⟩ := by
  have hstop : (pre.reverse ++ ['\n'] ++ line.reverse).takeWhile (· ≠ '\n') =
      pre.reverse.takeWhile (· ≠ '\n') := by
    rw [List.append_assoc, List.takeWhile_append]
    split
    · rename_i hall
      rw [(List.takeWhile_sublist _).eq_of_length hall]
      simp
    · rfl
  rw [behind, List.reverse_append, List.reverse_cons, hstop, List.count_append,
    List.count_eq_zero.2 h, List.count_cons_self, Nat.zero_add]
  rfl

/-- The span holds a piece of the text: it starts and ends at boundaries, with the piece between
them, and its positions are those of its two ends. -/
structure Span.CutsOut (span : Span) (cs before piece behind : List Char) : Prop where
  text : cs = before ++ (piece ++ behind)
  start : span.start = byteLength before
  stop : span.stop = byteLength (before ++ piece)
  first : span.first = Position.behind before
  last : span.last = Position.behind (before ++ piece)

theorem Span.cutsOut_of (before piece behind : List Char) :
    (Span.of (before ++ (piece ++ behind)) (byteLength before)
      (byteLength (before ++ piece))).CutsOut (before ++ (piece ++ behind)) before piece
        behind where
  text := rfl
  start := rfl
  stop := rfl
  first := positionAt_append before _
  last := by
    rw [Span.of, ← List.append_assoc]
    exact positionAt_append (before ++ piece) behind

namespace Span.CutsOut

variable {span : Span} {cs before piece behind : List Char}

/-- A span with characters in it has bytes in it. -/
theorem start_lt_stop (h : span.CutsOut cs before piece behind) (hpiece : piece ≠ []) :
    span.start < span.stop := by
  rw [h.start, h.stop, byteLength_append]
  exact Nat.lt_add_of_pos_right (Nat.pos_of_ne_zero (mt eq_nil_of_byteLength hpiece))

theorem stop_le_byteLength (h : span.CutsOut cs before piece behind) :
    span.stop ≤ byteLength cs := by
  rw [h.stop, h.text, byteLength_append, byteLength_append, byteLength_append]
  omega

end Span.CutsOut

/-! ## The order of positions -/

/-- The order of positions: by line, and on one line by column. -/
def Position.Precedes (p q : Position) : Prop :=
  p.line < q.line ∨ p.line = q.line ∧ p.column ≤ q.column

/-- Further on in a text the position is a later one. -/
theorem Position.behind_precedes_append (pre mid : List Char) :
    (behind pre).Precedes (behind (pre ++ mid)) := by
  by_cases hfeed : '\n' ∈ mid
  · left
    have hcount := List.count_pos_iff.2 hfeed
    simp only [behind, List.count_append]
    omega
  · right
    have hline : ∀ c ∈ mid.reverse, decide (c ≠ '\n') = true := by
      intro c hc
      simpa using fun h : c = '\n' => hfeed (h ▸ List.mem_reverse.1 hc)
    refine ⟨?_, ?_⟩
    · simp [behind, List.count_append, List.count_eq_zero.2 hfeed]
    · simp only [behind, List.reverse_append, List.takeWhile_append_of_pos hline,
        List.length_append]
      omega

/-- In one text, the span that starts earlier starts at the earlier position. -/
theorem Span.CutsOut.first_precedes {span other : Span}
    {cs before piece behind before' piece' behind' : List Char}
    (h : span.CutsOut cs before piece behind) (h' : other.CutsOut cs before' piece' behind')
    (hle : span.start ≤ other.start) : span.first.Precedes other.first := by
  have htext := h.text.symm.trans h'.text
  rw [h.start, h'.start] at hle
  obtain ⟨mid, rfl, _⟩ := exists_append_of_byteLength_le htext hle
  rw [h.first, h'.first]
  exact Position.behind_precedes_append before mid

/-- Further on in a text the position is another one. -/
theorem Position.eq_nil_of_behind_append {pre mid : List Char}
    (h : behind (pre ++ mid) = behind pre) : mid = [] := by
  obtain ⟨hline, hcolumn⟩ := Position.mk.inj h
  have hfeed : '\n' ∉ mid := by
    rw [← List.count_eq_zero]
    rw [List.count_append] at hline
    omega
  have hkept : ∀ c ∈ mid.reverse, decide (c ≠ '\n') = true := by
    intro c hc
    simpa using fun h : c = '\n' => hfeed (h ▸ List.mem_reverse.1 hc)
  rw [List.reverse_append, List.takeWhile_append_of_pos hkept, List.length_append,
    List.length_reverse] at hcolumn
  exact List.eq_nil_of_length_eq_zero (by omega)

/-- In one text, spans that start at one position start at one place. -/
theorem Span.CutsOut.start_eq {span other : Span}
    {cs before piece behind before' piece' behind' : List Char}
    (h : span.CutsOut cs before piece behind) (h' : other.CutsOut cs before' piece' behind')
    (heq : span.first = other.first) : span.start = other.start := by
  have htext := h.text.symm.trans h'.text
  rw [h.first, h'.first] at heq
  rw [h.start, h'.start]
  rcases List.append_eq_append_iff.1 htext with ⟨mid, rfl, -⟩ | ⟨mid, rfl, -⟩
  · rw [Position.eq_nil_of_behind_append heq.symm, List.append_nil]
  · rw [Position.eq_nil_of_behind_append heq, List.append_nil]

/-- The order of spans: by where they start, and then by where they end. -/
def Span.Precedes (span other : Span) : Prop :=
  span.start < other.start ∨ span.start = other.start ∧ span.stop ≤ other.stop

end ZeroAlloc.Text
